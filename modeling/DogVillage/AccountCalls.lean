import DogVillage.Async.Tally
import DogVillage.Taps

/-!
# What registrations and deletions call

How often the calls are made that keep an account and its document in
line: a registration that gets an account writes its document once, a
`deletaUser` deletes the document once, and the account once if it finds
itself still signed in.
-/

namespace DogVillage

open Async

/-- The tag of a `deletaUser` run by `u`. -/
def deletion (u : Uid) : Call := ⟨some u, .delete⟩

/-! ## Kinds of entries -/

def wroteUser (u : Uid) (t : Call) : Obs sig → Bool
  | .wrote (.setData r _) _ => t.op = .register ∧ r = ⟨.users, u⟩
  | _ => false

def registered (u : Uid) (t : Call) : Obs sig → Bool
  | .answered (.createUser _ _) (.ok v) => t.op = .register ∧ v = u
  | _ => false

theorem registered_own {u : Uid} {t : Call} {o : Obs sig} (h : o.isOwn = true) :
    registered u t o = false := by
  cases o <;> first | rfl | cases h

def startedDeletion (u : Uid) (t : Call) : Obs sig → Bool
  | .acted => t = deletion u
  | _ => false

def deletedUser (u : Uid) (t : Call) : Obs sig → Bool
  | .wrote (.delete r) _ => t = deletion u ∧ r.collection = .users
  | _ => false

def deletedAccount (u : Uid) (t : Call) : Obs sig → Bool
  | .answered (.deleteAccount _) _ => t = deletion u
  | _ => false

/-- A deletion of another account than the one that runs it. -/
def strayDeletion (t : Call) : Obs sig → Bool
  | .answered (.deleteAccount v) _ => t.op = .delete ∧ t.actor ≠ some v
  | _ => false

/-! ## The tallies -/

section

open Tally

def registrations (u : Uid) (s : ℤ) : Tally village :=
  balance (wroteUser u) (registered u) s fun _ _ => True

def userDeletions (u : Uid) (s : ℤ) : Tally village :=
  balance (deletedUser u) (startedDeletion u) s fun _ _ => True

def accountDeletions (u : Uid) (s : ℤ) : Tally village :=
  balance (deletedAccount u) (startedDeletion u) s fun t app =>
    t = deletion u → app.currentUser = some u

def strayDeletions : Tally village :=
  balance strayDeletion (fun _ _ => false) 1 fun t app =>
    t.op = .delete → app.currentUser = t.actor ∨ app.currentUser = none

variable {D : Type} [DecidableEq D]

theorem userDeletions_total (u : Uid) (s : ℤ) (d : D) (log : List (Entry village D)) :
    (userDeletions u s).total d log =
      s * count d (deletedUser u) log - s * count d (startedDeletion u) log := total_balance log

theorem accountDeletions_total (u : Uid) (s : ℤ) (d : D) (log : List (Entry village D)) :
    (accountDeletions u s).total d log =
      s * count d (deletedAccount u) log - s * count d (startedDeletion u) log :=
  total_balance log

theorem strayDeletions_total (d : D) (log : List (Entry village D)) :
    strayDeletions.total d log = count d strayDeletion log := by
  have h : strayDeletions.total d log = 1 * count d strayDeletion log -
      1 * count d (fun _ _ => false) log := total_balance log
  rw [h]
  simp [count]

variable {debit credit : Call → Obs sig → Bool} {s : ℤ} {sees : Call → App → Prop} {t : Call}

/-- Under a call that makes no entry of either kind all code is worth nothing. -/
theorem atMost_other (hsees : ∀ l, sees t l) (hd : ∀ o, debit t o = false)
    (hc : ∀ o, credit t o = false) (b : Block) :
    (balance debit credit s sees : Tally village).AtMost t b 0 := by
  refine AtMost.of_leads hsees (Code.leads_of_forall (fun o => ?_) b)
  simp [balance, hd o, hc o]

end

/-! ## Registrations -/

section

variable {u : Uid} {s : ℤ} {t : Call}

open Tally

theorem registrations_value {o : Obs sig} (hd : wroteUser u t o = false)
    (hc : registered u t o = false) : (registrations u s).value t o = 0 := by
  simp [registrations, balance, hd, hc]

theorem registrations_showLoader (b : Bool) :
    (registrations u s).AtMost t (showLoader b) 0 :=
  ⟨fun h => h.elim, le_of_eq (by rw [registrations_value rfl rfl]; rfl)⟩

theorem registrations_uploadImage {image : UIImage} {completion : String → Block}
    (h : ∀ url, (registrations u s).AtMost t (completion url) 0) :
    (registrations u s).AtMost t (ImageUploader.uploadImage image completion) 0 := by
  rw [ImageUploader.uploadImage]
  split
  · exact le_refl _
  · intro e
    rw [registrations_value rfl rfl]
    refine ⟨0, le_refl _, fun (error : Option FIRError) => ?_⟩
    rw [registrations_value rfl rfl]
    cases error with
    | some _ => exact le_refl _
    | none =>
        refine ⟨0, le_refl _, fun (url : Option String) => ?_⟩
        rw [registrations_value rfl rfl]
        cases url with
        | none => exact le_refl _
        | some imageUrl => exact h imageUrl

theorem registrations_fetchUser : (registrations u s).AtMost t MainTabController.fetchUser 0 := by
  intro app _
  simp only
  cases app.currentUser with
  | none => exact le_refl (0 : ℤ)
  | some uid =>
      refine ⟨0, le_refl _, 0, le_refl _, fun (snapshot : Option (Option Dictionary)) => ?_⟩
      rw [registrations_value rfl rfl]
      rcases snapshot with _ | _ | data
      · exact le_refl _
      · exact le_refl _
      · refine ⟨0, le_refl _, fun h => h.elim, ?_⟩
        rw [registrations_value rfl rfl]
        exact le_refl _

theorem registrations_onRegister (error : Option FIRError) :
    (registrations u s).AtMost t (RegisterationController.onRegister error) 0 := by
  cases error with
  | some _ => exact registrations_showLoader false
  | none => exact registrations_fetchUser.andThen (fun _ _ => trivial) (registrations_showLoader true)

/-- Signing up writes as many documents of `u` as it gets accounts of `u`. -/
theorem registrations_signUp (ht : t.op = .register)
    {email password fullname username : String} {image : UIImage} :
    (registrations u s).AtMost t
      (RegisterationController.handleSignUp email password fullname username image) 0 := by
  have hregister : ∀ credentials : AuthCredentials, (registrations u s).AtMost t
      (AuthService.registerUser credentials RegisterationController.onRegister) 0 := by
    refine fun credentials => ⟨0, le_refl _, registrations_uploadImage fun url => ⟨0, le_refl _, ?_⟩⟩
    intro (result : Except FIRError Uid)
    cases result with
    | error e =>
        rw [registrations_value rfl rfl]
        exact registrations_onRegister _
    | ok uid =>
        refine ⟨fun h => h.elim, 0, le_refl _, 0, le_refl _, fun r => ?_⟩
        refine (registrations_onRegister r).mono (le_of_eq ?_)
        by_cases hu : uid = u <;>
          simp [registrations, balance, wroteUser, registered, ht, hu]
  exact (hregister _).andThen (fun _ _ => trivial) (registrations_showLoader true)

end

/-! ## Deletions -/

section

open Tally

variable {y : Tally village} {t : Call} {uid : Uid} {n m : ℤ}

/-- A deletion is worth what its two calls are. -/
theorem atMost_deleteWrites (hissued : ∀ w, y.value t (.issued w) = 0)
    (hchanged : ∀ f, y.value t (.changed f) = 0)
    (hdocs : ∀ q a, y.value t (.answered (.getDocuments q) a) = 0)
    (hposts : ∀ p r, y.value t (.wrote (.delete ⟨.posts, p⟩) r) = 0)
    (hnone : ∀ app : App, y.sees t app → app.currentUser = none → 0 ≤ n)
    (hask : ∀ (app : App) v a, y.sees t app → app.currentUser = some v →
      y.value t (.answered (.deleteAccount v) a) ≤ n)
    (hwrite : ∀ r, y.value t (.wrote (.delete ⟨.users, uid⟩) r) ≤ m) :
    y.AtMost t (deleteWrites uid) (n + m) := by
  show y.AtMost t (Code.andThen (Auth.delete fun _ => .done)
    (.write (.delete ⟨.users, uid⟩) _ .done)) (n + m)
  refine AtMost.andThen (m := m) ?_ ?_ ?_
  · refine ⟨0, le_refl _, fun error => AtMost.mono ?_ (?_ : (0 : ℤ) ≤ _)⟩
    -- the posts: nothing of value, whatever the listener is told
    · cases error with
      | some _ => exact le_refl (0 : ℤ)
      | none =>
          refine ⟨le_refl _, fun (snapshot : Option (List (DocId × Dictionary))) => ?_⟩
          rw [hdocs]
          cases snapshot with
          | none => exact le_refl (0 : ℤ)
          | some documents =>
              refine (AtMost.forEach (f := fun document : DocId × Dictionary =>
                Code.write (S := sig) (.delete ⟨.posts, document.1⟩) (fun _ => .done) .done)
                (fun document => ⟨0, le_refl _, fun r => ?_⟩) (fun _ h => h) documents).1
              rw [hissued, hposts]
              exact le_refl (0 : ℤ)
    · rw [hissued]
      linarith [hwrite error]
  · exact fun h => False.elim h
  · intro app hsees
    simp only
    cases hu : app.currentUser with
    | none => exact hnone app hsees hu
    | some v =>
        refine ⟨0, le_refl _, fun (error : Option FIRError) => ?_⟩
        have hle := hask app v error hsees hu
        cases error with
        | some e =>
            show (0 : ℤ) ≤ n - 0 - y.value t (.answered (.deleteAccount v) (some e))
            linarith
        | none =>
            refine ⟨fun h => False.elim h, ?_⟩
            rw [hchanged]
            show (0 : ℤ) ≤ n - 0 - y.value t (.answered (.deleteAccount v) none) - 0
            linarith

/-- The whole action. -/
theorem atMost_deleteAccount {app : App} (huid : app.currentUser = some uid)
    (hchanged : ∀ f, y.value t (.changed f) = 0) (h : y.AtMost t (deleteWrites uid) n) :
    y.AtMost t (Action.deleteAccount.block.start app) n := by
  have htap := deleteTap app
  generalize Action.deleteAccount.block.start app = b at htap ⊢
  cases htap with
  | none hu => rw [huid] at hu; cases hu
  | @delete v hu =>
      rw [huid] at hu
      cases hu
      refine ⟨fun h => False.elim h, 0, ⟨fun h => False.elim h, ?_⟩, ?_⟩
      · rw [hchanged]
        exact le_refl (0 : ℤ)
      · exact h.mono (by rw [hchanged]; linarith)

/-- With nobody signed in it does nothing. -/
theorem atMost_noAccount {app : App} (huid : app.currentUser = none)
    (hchanged : ∀ f, y.value t (.changed f) = 0) :
    y.AtMost t (Action.deleteAccount.block.start app) 0 := by
  have htap := deleteTap app
  generalize Action.deleteAccount.block.start app = b at htap ⊢
  cases htap with
  | delete hu => rw [huid] at hu; cases hu
  | none =>
      refine ⟨fun h => False.elim h, fun h => False.elim h, ?_⟩
      rw [hchanged, hchanged]
      exact le_refl (0 : ℤ)

/-! ## The tallies, action by action -/

variable {u : Uid} {s : ℤ} (a : Action) (app : App)

theorem deletion_of_tag (h : (⟨app.currentUser, a.op app⟩ : Call) = deletion u) :
    a = .deleteAccount ∧ app.currentUser = some u := by
  have hs := a.starts app
  rw [(Call.mk.inj h).2] at hs
  cases hs
  exact ⟨rfl, (Call.mk.inj h).1⟩

theorem registrations_action :
    (registrations u s).AtMost ⟨app.currentUser, a.op app⟩ (a.block.start app)
      (-(registrations u s).value ⟨app.currentUser, a.op app⟩ .acted) := by
  rw [registrations_value rfl rfl, neg_zero]
  by_cases ht : a.op app = .register
  · have hs := a.starts app
    rw [ht] at hs
    cases hs with
    | register => exact AtMost.start (registrations_signUp ht) fun _ => trivial
  · refine atMost_other (fun _ => trivial) (fun o => ?_) (fun o => ?_) _
    · unfold wroteUser
      split <;> simp [ht]
    · unfold registered
      split <;> simp [ht]

theorem userDeletions_action :
    (userDeletions u s).AtMost ⟨app.currentUser, a.op app⟩ (a.block.start app)
      (-(userDeletions u s).value ⟨app.currentUser, a.op app⟩ .acted) := by
  by_cases ht : (⟨app.currentUser, a.op app⟩ : Call) = deletion u
  · obtain ⟨rfl, huid⟩ := deletion_of_tag a app ht
    rw [ht]
    have hs : -(userDeletions u s).value (deletion u) .acted = 0 + s := by
      simp [userDeletions, balance, deletedUser, startedDeletion]
    rw [hs]
    refine atMost_deleteAccount huid ?_ (atMost_deleteWrites ?_ ?_ ?_ ?_ ?_ ?_ ?_) <;>
      simp [userDeletions, balance, deletedUser, startedDeletion]
  · have hz : (userDeletions u s).value ⟨app.currentUser, a.op app⟩ .acted = 0 := by
      simp [userDeletions, balance, deletedUser, startedDeletion, ht]
    rw [hz, neg_zero]
    refine atMost_other (fun _ => trivial) (fun o => ?_) (fun o => ?_) _
    · unfold deletedUser
      split <;> simp [ht]
    · unfold startedDeletion
      split <;> simp [ht]

theorem accountDeletions_action :
    (accountDeletions u s).AtMost ⟨app.currentUser, a.op app⟩ (a.block.start app)
      (-(accountDeletions u s).value ⟨app.currentUser, a.op app⟩ .acted) := by
  by_cases ht : (⟨app.currentUser, a.op app⟩ : Call) = deletion u
  · obtain ⟨rfl, huid⟩ := deletion_of_tag a app ht
    rw [ht]
    have hs : -(accountDeletions u s).value (deletion u) .acted = s + 0 := by
      simp [accountDeletions, balance, deletedAccount, startedDeletion]
    rw [hs]
    refine atMost_deleteAccount huid ?_ (atMost_deleteWrites ?_ ?_ ?_ ?_ ?_ ?_ ?_) <;>
      simp [accountDeletions, balance, deletedAccount, startedDeletion]
    intro app h hn
    rw [h rfl] at hn
    cases hn
  · have hz : (accountDeletions u s).value ⟨app.currentUser, a.op app⟩ .acted = 0 := by
      simp [accountDeletions, balance, deletedAccount, startedDeletion, ht]
    rw [hz, neg_zero]
    refine atMost_other (fun _ h => absurd h ht) (fun o => ?_) (fun o => ?_) _
    · unfold deletedAccount
      split <;> simp [ht]
    · unfold startedDeletion
      split <;> simp [ht]

theorem strayDeletions_action :
    strayDeletions.AtMost ⟨app.currentUser, a.op app⟩ (a.block.start app)
      (-strayDeletions.value ⟨app.currentUser, a.op app⟩ .acted) := by
  have hz : strayDeletions.value ⟨app.currentUser, a.op app⟩ .acted = 0 := rfl
  rw [hz, neg_zero]
  by_cases ht : a.op app = .delete
  · have hs := a.starts app
    rw [ht] at hs
    cases hs with
    | delete =>
        cases huid : app.currentUser with
        | none =>
            refine atMost_noAccount huid ?_
            simp [strayDeletions, balance, strayDeletion]
        | some u =>
            refine atMost_deleteAccount (n := 0 + 0) huid ?_
              (atMost_deleteWrites ?_ ?_ ?_ ?_ ?_ ?_ ?_) <;>
              simp [strayDeletions, balance, strayDeletion]
            intro app v h hv
            have h := h rfl
            simp_all
  · refine atMost_other (fun _ h => absurd h ht) (fun o => ?_) (fun o => rfl) _
    unfold strayDeletion
    split <;> simp [ht]

end

end DogVillage
