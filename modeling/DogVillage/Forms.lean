import DogVillage.Calls
import DogVillage.Footprint

/-!
# Forms

Accounts sign in, are registered and edited, and have their password reset
on forms. A form has text fields, a view model with copies of their texts,
and a button that is enabled as the view model says. However the fields are
typed in, the button can be tapped when all of them are filled in and at no
other time. So no user's document is ever stored without an address and
names, as long as all that reaches the services comes from the forms.
-/

namespace DogVillage

open Async

/-! ## A form -/

/-- The text fields `F`, the view model's copies of their texts, the button. -/
structure Form (F : Type) where
  text : F → String := fun _ => ""
  viewModel : F → Option String := fun _ => none
  isEnabled : Bool := false

/-- `text?.isEmpty == false` -/
def filled (text : Option String) : Bool := text.map String.isEmpty == some false

namespace Form

section

variable {F : Type} [DecidableEq F] (formIsValid : (F → Option String) → Bool)

/-- `updateForm()` -/
def updateForm (form : Form F) : Form F :=
  { form with isEnabled := formIsValid form.viewModel }

/-- `textDidChange(sender:)` -/
def textDidChange (sender : F) (form : Form F) : Form F :=
  let viewModel := Function.update form.viewModel sender (some (form.text sender))
  updateForm formIsValid { form with viewModel }

/-- The text of a field is changed by its user. -/
def type (sender : F) (text : String) (form : Form F) : Form F :=
  textDidChange formIsValid sender { form with text := Function.update form.text sender text }

/-- What may become of a form. -/
inductive Typed : Form F → Prop
  | new : Typed {}
  | typed {form} (sender text) : Typed form → Typed (form.type formIsValid sender text)

/-- A form whose fields have been filled in one after the other. -/
def fill (fields : List F) (text : F → String) : Form F :=
  fields.foldr (fun f form => form.type formIsValid f (text f)) {}

variable {formIsValid} {form : Form F}

theorem Typed.filled_viewModel (h : form.Typed formIsValid) (f : F) :
    filled (form.viewModel f) = true ↔ form.text f ≠ "" := by
  induction h with
  | new => simp [filled]
  | typed sender text _ ih =>
      by_cases hf : f = sender
      · subst hf
        simp [type, textDidChange, updateForm, filled]
      · simpa [type, textDidChange, updateForm, Function.update_of_ne hf] using ih

theorem typed_fill (fields : List F) (text : F → String) :
    (fill formIsValid fields text).Typed formIsValid := by
  induction fields with
  | nil => exact .new
  | cons f fields ih => exact .typed f (text f) ih

theorem text_fill {fields : List F} {text : F → String} {f : F} (hf : f ∈ fields) :
    (fill formIsValid fields text).text f = text f := by
  induction fields with
  | nil => cases hf
  | cons f' fields ih =>
      by_cases hff' : f = f'
      · subst hff'
        exact Function.update_self ..
      · have htext : (fill formIsValid (f' :: fields) text).text f =
            (fill formIsValid fields text).text f := Function.update_of_ne hff' _ _
        rw [htext, ih ((List.mem_cons.mp hf).resolve_left hff')]

variable (hvalid : ∀ viewModel, formIsValid viewModel = true ↔ ∀ f, filled (viewModel f) = true)

include hvalid

/-- The button of a form that wants all its fields filled in is enabled
exactly when they are. -/
theorem Typed.isEnabled_iff [Nonempty F] (h : form.Typed formIsValid) :
    form.isEnabled = true ↔ ∀ f, form.text f ≠ "" := by
  have henabled : form.isEnabled = true ↔ formIsValid form.viewModel = true := by
    cases h with
    | new =>
        refine iff_of_false Bool.false_ne_true fun hall => ?_
        obtain ⟨f⟩ := ‹Nonempty F›
        cases (hvalid _).mp hall f
    | typed => exact Iff.rfl
  rw [henabled, hvalid]
  exact forall_congr' h.filled_viewModel

theorem exists_enabled [Nonempty F] (fields : List F) (hfields : ∀ f, f ∈ fields)
    (text : F → String) (htext : ∀ f, text f ≠ "") :
    ∃ form : Form F, form.Typed formIsValid ∧ form.isEnabled = true ∧ form.text = text := by
  have htyped : (fill formIsValid fields text).Typed formIsValid := typed_fill fields text
  have hsame : (fill formIsValid fields text).text = text := funext fun f => text_fill (hfields f)
  exact ⟨_, htyped, (htyped.isEnabled_iff hvalid).mpr (by rwa [hsame]), hsame⟩

end

end Form

/-! ## The four forms -/

namespace LoginController

inductive Field
  | email
  | password
deriving DecidableEq, Inhabited

/-- `LoginViewModel.formIsValid` -/
def formIsValid (viewModel : Field → Option String) : Bool :=
  filled (viewModel .email) && filled (viewModel .password)

def tapped (form : Form Field) : Option Action :=
  if form.isEnabled then some (.login (form.text .email) (form.text .password)) else none

end LoginController

namespace RegisterationController

inductive Field
  | email
  | password
  | fullname
  | username
deriving DecidableEq, Inhabited

/-- `RegistraionViewModel.formIsValid` -/
def formIsValid (viewModel : Field → Option String) : Bool :=
  filled (viewModel .email) && filled (viewModel .password) && filled (viewModel .fullname) &&
    filled (viewModel .username)

/-- A tap does nothing until a photo has been picked. -/
def tapped (form : Form Field) (profileImage : Option UIImage) : Option Action :=
  if form.isEnabled then profileImage.map fun profileImage =>
    .signUp (form.text .email) (form.text .password) (form.text .fullname) (form.text .username)
      profileImage
  else none

end RegisterationController

namespace ResetPasswordController

inductive Field
  | email
deriving DecidableEq, Inhabited

/-- `ResetPasswordViewModel.formIsValid` -/
def formIsValid (viewModel : Field → Option String) : Bool := filled (viewModel .email)

def tapped (form : Form Field) : Option Action :=
  if form.isEnabled then some (.resetPassword (form.text .email)) else none

end ResetPasswordController

namespace ResetInfomation

inductive Field
  | fullname
  | username
deriving DecidableEq, Inhabited

/-- `updateViewModel.formIsValid` -/
def formIsValid (viewModel : Field → Option String) : Bool :=
  filled (viewModel .fullname) && filled (viewModel .username)

/-- A tap does nothing until a photo has been picked. -/
def tapped (form : Form Field) (profileImage : Option UIImage) : Option Action :=
  if form.isEnabled then profileImage.map fun profileImage =>
    .editProfile (form.text .username) (form.text .fullname) profileImage
  else none

end ResetInfomation

/-- The action is what a tap on one of the forms comes to. -/
def Action.Submitted : Action → Prop
  | login email password => ∃ form, form.Typed LoginController.formIsValid ∧
      LoginController.tapped form = some (login email password)
  | signUp email password fullname username image => ∃ form profileImage,
      form.Typed RegisterationController.formIsValid ∧
      RegisterationController.tapped form profileImage =
        some (signUp email password fullname username image)
  | resetPassword email => ∃ form, form.Typed ResetPasswordController.formIsValid ∧
      ResetPasswordController.tapped form = some (resetPassword email)
  | editProfile username fullname image => ∃ form profileImage,
      form.Typed ResetInfomation.formIsValid ∧
      ResetInfomation.tapped form profileImage = some (editProfile username fullname image)
  | _ => True

/-- The texts an action takes over from a form. -/
def Action.texts : Action → List String
  | login email password => [email, password]
  | signUp email password fullname username _ => [email, password, fullname, username]
  | resetPassword email => [email]
  | editProfile username fullname _ => [username, fullname]
  | _ => []

theorem login_valid (viewModel : LoginController.Field → Option String) :
    LoginController.formIsValid viewModel = true ↔ ∀ f, filled (viewModel f) = true := by
  simp only [LoginController.formIsValid, Bool.and_eq_true]
  exact ⟨fun h f => by cases f <;> simp [h], fun h => by simp [h]⟩

theorem registration_valid (viewModel : RegisterationController.Field → Option String) :
    RegisterationController.formIsValid viewModel = true ↔ ∀ f, filled (viewModel f) = true := by
  simp only [RegisterationController.formIsValid, Bool.and_eq_true]
  exact ⟨fun h f => by cases f <;> simp [h], fun h => by simp [h]⟩

theorem resetPassword_valid (viewModel : ResetPasswordController.Field → Option String) :
    ResetPasswordController.formIsValid viewModel = true ↔ ∀ f, filled (viewModel f) = true :=
  ⟨fun h f => by cases f; exact h, fun h => h .email⟩

theorem update_valid (viewModel : ResetInfomation.Field → Option String) :
    ResetInfomation.formIsValid viewModel = true ↔ ∀ f, filled (viewModel f) = true := by
  simp only [ResetInfomation.formIsValid, Bool.and_eq_true]
  exact ⟨fun h f => by cases f <;> simp [h], fun h => by simp [h]⟩

/-- What a form submits is filled in. -/
theorem Action.Submitted.filled {a : Action} (h : a.Submitted) : ∀ text ∈ a.texts, text ≠ "" := by
  cases a with
  | login email password =>
      obtain ⟨form, htyped, htap⟩ := h
      obtain ⟨henabled, rfl, rfl⟩ : form.isEnabled = true ∧ form.text .email = email ∧
        form.text .password = password := by simpa [LoginController.tapped] using htap
      simp [texts, (htyped.isEnabled_iff login_valid).mp henabled]
  | signUp email password fullname username image =>
      obtain ⟨form, photo, htyped, htap⟩ := h
      obtain ⟨henabled, -, rfl, rfl, rfl, rfl⟩ : form.isEnabled = true ∧ photo = some image ∧
        form.text .email = email ∧ form.text .password = password ∧
        form.text .fullname = fullname ∧ form.text .username = username := by
          cases photo <;> simp_all [RegisterationController.tapped]
      simp [texts, (htyped.isEnabled_iff registration_valid).mp henabled]
  | resetPassword email =>
      obtain ⟨form, htyped, htap⟩ := h
      obtain ⟨henabled, rfl⟩ : form.isEnabled = true ∧ form.text .email = email := by
        simpa [ResetPasswordController.tapped] using htap
      simp [texts, (htyped.isEnabled_iff resetPassword_valid).mp henabled]
  | editProfile username fullname image =>
      obtain ⟨form, photo, htyped, htap⟩ := h
      obtain ⟨henabled, -, rfl, rfl⟩ : form.isEnabled = true ∧ photo = some image ∧
        form.text .username = username ∧ form.text .fullname = fullname := by
          cases photo <;> simp_all [ResetInfomation.tapped]
      simp [texts, (htyped.isEnabled_iff update_valid).mp henabled]
  | _ => simp [texts]

/-- And whatever is filled in can be submitted. -/
theorem submitted_of_filled {a : Action} (h : ∀ text ∈ a.texts, text ≠ "") : a.Submitted := by
  cases a with
  | login email password =>
      obtain ⟨form, htyped, henabled, htext⟩ := Form.exists_enabled login_valid
        [.email, .password] (fun f => by cases f <;> simp)
        (fun | .email => email | .password => password)
        (fun f => by cases f <;> simp_all [Action.texts])
      exact ⟨form, htyped, by simp [LoginController.tapped, henabled, htext]⟩
  | signUp email password fullname username image =>
      obtain ⟨form, htyped, henabled, htext⟩ := Form.exists_enabled registration_valid
        [.email, .password, .fullname, .username] (fun f => by cases f <;> simp)
        (fun | .email => email | .password => password | .fullname => fullname
             | .username => username) (fun f => by cases f <;> simp_all [Action.texts])
      exact ⟨form, some image, htyped, by
        simp [RegisterationController.tapped, henabled, htext]⟩
  | resetPassword email =>
      obtain ⟨form, htyped, henabled, htext⟩ := Form.exists_enabled resetPassword_valid
        [.email] (fun f => by cases f; simp) (fun | .email => email)
        (fun f => by cases f; simp_all [Action.texts])
      exact ⟨form, htyped, by simp [ResetPasswordController.tapped, henabled, htext]⟩
  | editProfile username fullname image =>
      obtain ⟨form, htyped, henabled, htext⟩ := Form.exists_enabled update_valid
        [.fullname, .username] (fun f => by cases f <;> simp)
        (fun | .fullname => fullname | .username => username)
        (fun f => by cases f <;> simp_all [Action.texts])
      exact ⟨form, some image, htyped, by simp [ResetInfomation.tapped, henabled, htext]⟩
  | _ => trivial

/-! ## Stored users -/

/-- The user's address and names are there. -/
structure Filled (data : Dictionary) : Prop where
  email : data.string "email" ≠ ""
  fullname : data.string "fullname" ≠ ""
  username : data.string "username" ≠ ""

/-- A write to `users` puts a user in place with all of them, or leaves all of them. -/
def Fills : Write → Prop
  | .setData ⟨.users, _⟩ data => Filled data
  | .updateData ⟨.users, _⟩ data => ∀ old, Filled old → Filled (data ++ old)
  | _ => True

def Filling : Obs sig → Prop
  | .issued w => Fills w
  | .wrote w _ => Fills w
  | _ => True

theorem plain_filling : Plain Filling := ⟨fun _ _ => trivial, fun _ => trivial⟩

theorem sends_filling {w : Write} (h : Fills w) : Sends Filling w := ⟨h, fun _ => h⟩

theorem toLower_ne_empty {s : String} (h : s ≠ "") : s.toLower ≠ "" :=
  fun hs => h (String.map_eq_empty.mp hs)

theorem filled_userData {credentials : AuthCredentials} {imageUrl : String} {uid : Uid}
    (hemail : credentials.email ≠ "") (hfullname : credentials.fullname ≠ "")
    (husername : credentials.username ≠ "") :
    Filled (AuthService.userData credentials imageUrl uid) := ⟨hemail, hfullname, husername⟩

theorem filling_of_touches {C : Collection → Prop} (hC : ¬C .users) {b : Block}
    (h : Touches C b) : b.Under (fun _ => True) (fun _ _ => True) Filling := by
  have hother : ∀ w : Write, C w.ref.collection → Fills w := fun w hw => by
    unfold Fills
    split
    · exact absurd hw hC
    · exact absurd hw hC
    · trivial
  exact h.under (fun w hw => ⟨hother w hw, fun _ => hother w hw⟩) (fun _ _ => trivial)
    (fun _ => trivial) (fun _ => trivial) fun _ => trivial

/-- What is submitted on a form fills in what it stores. -/
theorem filling_action {a : Action} (ha : a.Submitted) (app : App) :
    (a.block.start app).Under (fun _ => True) (fun _ _ => True) Filling := by
  have hloader : ∀ b, (showLoader b).Under (fun _ => True) (fun _ _ => True) Filling :=
    fun b => under_showLoader trivial
  have start : ∀ {b : Block}, b.Under (fun _ => True) (fun _ _ => True) Filling →
      (b.start app).Under (fun _ => True) (fun _ _ => True) Filling :=
    fun h => h.start (fun _ _ _ _ => trivial) trivial
  cases a with
  | signUp email password fullname username image =>
      have htexts := ha.filled
      simp only [Action.texts, List.mem_cons, List.not_mem_nil, or_false, forall_eq_or_imp,
        forall_eq] at htexts
      obtain ⟨hemail, -, hfullname, husername⟩ := htexts
      refine start (Code.Under.andThen (under_registerUser plain_filling (fun _ _ => trivial)
        (fun uid url => sends_filling ?_) fun error => ?_) (hloader true))
      · exact filled_userData hemail hfullname (toLower_ne_empty husername)
      · cases error with
        | some _ => exact hloader false
        | none =>
            exact Code.Under.andThen
              (filling_of_touches (C := fun _ => False) id touches_tab_fetchUser) (hloader true)
  | editProfile username fullname image =>
      have htexts := ha.filled
      simp only [Action.texts, List.mem_cons, List.not_mem_nil, or_false, forall_eq_or_imp,
        forall_eq] at htexts
      obtain ⟨husername, hfullname⟩ := htexts
      refine start (Code.Under.andThen (Code.Under.andThen (hloader false)
        (under_upDateUser plain_filling fun uid url => sends_filling fun old hold => ?_))
        (hloader true))
      exact ⟨hold.email, hfullname, husername⟩
  | deleteAccount =>
      refine start (Code.Under.andThen (hloader false) (Code.Under.andThen
        (under_deletaUser plain_filling (fun _ => trivial) fun _ _ => sends_filling trivial)
        (hloader true)))
  | _ => exact filling_of_touches (by simp [Action.touches]) (touches_action _ app)

section

variable {D : Type} [DecidableEq D] {w : World village D}

/-- Accounts sign in, are registered and edited, and have their password
reset on the forms only. -/
def OnForms (_ : World village D) (e : Event village D) : Prop :=
  ∀ d (a : Action), e = .act d a → a.Submitted

theorem filling_of_run (hrun : Run OnForms emptyWorld w) :
    w.Under (fun _ => True) (fun _ _ => True) fun _ => Filling :=
  World.Under.of_run (fun _ _ _ _ _ => trivial) (fun _ => ⟨trivial, .of_idle rfl rfl⟩)
    (fun _ d a hok _ => filling_action (hok d a rfl) _) (fun _ _ _ _ _ _ _ _ _ => trivial) hrun

/-- However accounts are registered and edited, and whatever fails, every
stored user has an address and both names. -/
theorem users_filled (hrun : Run OnForms emptyWorld w) {u : Uid} {data : Dictionary}
    (hget : w.server.docs.get ⟨.users, u⟩ = some data) : Filled data := by
  induction hrun generalizing data with
  | refl => cases hget
  | @step w w' e hrun _ hstep ih =>
      cases docsStep (stepped_of_step hstep) with
      | same hdocs _ => exact ih (hdocs ▸ hget)
      | @wrote d m ms _ hw _ hdocs =>
          rw [hdocs] at hget
          split at hget
          · next hr =>
              have hm : m ∈ (w.devices d).writes := by rw [hw]; exact List.mem_cons_self
              have hfills : Fills m.write := ((filling_of_run hrun d).2.writes m hm none).1
              cases hwr : m.write with
              | setData r new =>
                  rw [hwr] at hr hget hfills
                  cases hr
                  cases hget
                  exact hfills
              | updateData r new =>
                  rw [hwr] at hr hget hfills
                  cases hr
                  obtain ⟨old, hold, rfl⟩ := Option.map_eq_some_iff.mp hget
                  exact hfills old (ih hold)
              | delete r =>
                  rw [hwr] at hget
                  cases hget
          · exact ih hget

end

/-- Alice registers, and edits her profile. -/
def aliceEdited : World village Unit :=
  emptyWorld
    |> smooth.perform () (.signUp "alice@dog.kr" "secret" "Alice" "alice" ⟨some []⟩) 100
    |> smooth.perform () (.editProfile "Rex" "Alice" ⟨some []⟩) 100

theorem users_filled_aliceEdited :
    ∃ data, aliceEdited.server.docs.get ⟨.users, "n1"⟩ = some data ∧ Filled data := by
  have hown : ∀ w e, smooth.pick () w = some e → OnForms (D := Unit) w e :=
    fun _ _ h _ a he => absurd he ((Policy.pick_own h).2.1 a)
  have hact : ∀ (w : World village Unit) {a : Action}, (∀ text ∈ a.texts, text ≠ "") →
      OnForms w (.act () a) := fun w a htexts _ _ he => by
    cases he
    exact submitted_of_filled htexts
  have hrun : Run OnForms emptyWorld aliceEdited :=
    Policy.run_perform hown (hact _ (by simp [Action.texts]))
      (Policy.run_perform hown (hact _ (by simp [Action.texts])) .refl)
  have hthere : (aliceEdited.server.docs.get ⟨.users, "n1"⟩).isSome = true := by decide
  obtain ⟨data, hget⟩ := Option.isSome_iff_exists.mp hthere
  exact ⟨data, hget, users_filled hrun hget⟩

example : (aliceEdited.server.docs.get ⟨.users, "n1"⟩).map
    (fun data => Dictionary.string data "username") = some "Rex" := by decide

end DogVillage
