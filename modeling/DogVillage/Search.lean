import DogVillage.Footprint
import DogVillage.Deliveries
import DogVillage.Async.Reach

/-!
# Searching for users

The search filter lowercases the text and the full names, not the
usernames: it relies on every stored username being lower case.
Registration lowercases the username it stores; an edit of the profile
stores the text of its field as it is.

What `lowercased()` does is left open, but that doing it twice is doing it
once; so is `contains`.
-/

namespace DogVillage

open Async

/-! ## The filter -/

section

variable (lowercased : String → String) (contains : String → String → Bool)

/-- `updateSearchResults(for:)`: the rows for the text of the search bar. -/
def SearchController.updateSearchResults (users : List User) (text : String) : List User :=
  let searchText := lowercased text
  users.filter fun user =>
    contains user.username searchText || contains (lowercased user.fullname) searchText

/-- The users whose username or fullname contains the text, upper and lower
case not distinguished. -/
def matchingUsers (users : List User) (text : String) : List User :=
  users.filter fun user =>
    contains (lowercased user.username) (lowercased text) ||
      contains (lowercased user.fullname) (lowercased text)

variable {lowercased contains}

theorem updateSearchResults_eq_matchingUsers {users : List User}
    (h : ∀ user ∈ users, lowercased user.username = user.username) (text : String) :
    SearchController.updateSearchResults lowercased contains users text =
      matchingUsers lowercased contains users text := by
  refine List.filter_congr fun user hu => ?_
  rw [h user hu]

end

/-! ## The app, for any `lowercased()` -/

/-- `RegisterationController.handleSignUp`, given `lowercased()` -/
def RegisterationController.handleSignUpWith (lowercased : String → String)
    (email password fullname username : String) (profileImage : UIImage) : Block :=
  let credentials : AuthCredentials :=
    { email, password, fullname, username := lowercased username, profileImage }
  showLoader true >> AuthService.registerUser credentials onRegister

def Action.blockWith (lowercased : String → String) : Action → Block
  | signUp email password fullname username image =>
      RegisterationController.handleSignUpWith lowercased email password fullname username image
  | a => a.block

theorem Action.blockWith_toLower (a : Action) : a.blockWith String.toLower = a.block := by
  cases a <;> rfl

def villageWith (lowercased : String → String) : System sig :=
  { village with ui := fun a app => (⟨app.currentUser, a.op app⟩, a.blockWith lowercased) }

theorem villageWith_toLower : villageWith String.toLower = village := by
  have hui : (villageWith String.toLower).ui = village.ui :=
    funext fun a => funext fun _ => congrArg (Prod.mk _) (Action.blockWith_toLower a)
  exact congrArg (fun ui => { village with ui := ui }) hui

/-! ## Stored names -/

section

variable (lowercased : String → String)

/-- The username of a user's document is in lower case. -/
def LowerName (data : Dictionary) : Prop :=
  lowercased (Dictionary.string data "username") = Dictionary.string data "username"

/-- A write to `users` stores a username, in lower case. -/
def NameOk : Write → Prop
  | .setData ⟨.users, _⟩ data => LowerName lowercased data
  | .updateData ⟨.users, _⟩ data => (data.lookup "username").isSome ∧ LowerName lowercased data
  | _ => True

def NamesLower (docs : Documents Collection Value) : Prop :=
  ∀ id data, docs.get ⟨.users, id⟩ = some data → LowerName lowercased data

variable {lowercased}

theorem nameOk_of_ne {wr : Write} (h : wr.ref.collection ≠ .users) : NameOk lowercased wr := by
  unfold NameOk
  split
  · exact absurd rfl h
  · exact absurd rfl h
  · trivial

theorem string_append {new old : Dictionary} {key : String} (h : (new.lookup key).isSome) :
    Dictionary.string (new ++ old) key = new.string key := by
  obtain ⟨v, hv⟩ := Option.isSome_iff_exists.mp h
  simp only [Dictionary.string, List.lookup_append, hv, Option.some_or]

theorem NameOk.written {wr : Write} (h : NameOk lowercased wr) {old : Option Dictionary}
    (hr : wr.ref.collection = .users) {data : Dictionary}
    (hw : Documents.written wr old = some data) : LowerName lowercased data := by
  obtain ⟨⟨c, i⟩, new⟩ | ⟨⟨c, i⟩, new⟩ | r := wr
  · cases hr
    cases hw
    exact h
  · cases hr
    obtain ⟨old, -, rfl⟩ := Option.map_eq_some_iff.mp hw
    rw [LowerName, string_append h.1]
    exact h.2
  · cases hw

/-- An edit of the profile is given a username in lower case. -/
def LowerEdit (lowercased : String → String) (a : Action) : Prop :=
  ∀ username fullname image, a = .editProfile username fullname image →
    lowercased username = username

theorem names_uploadImage {image : UIImage} {completion : String → Block}
    (h : ∀ url, (completion url).Writes (NameOk lowercased)) :
    (ImageUploader.uploadImage image completion).Writes (NameOk lowercased) := by
  unfold ImageUploader.uploadImage
  split
  · trivial
  · refine fun e => ⟨fun (error : Option FIRError) => ?_, trivial⟩
    cases error with
    | some _ => trivial
    | none =>
        refine ⟨fun (url : Option String) => ?_, trivial⟩
        cases url with
        | none => trivial
        | some url => exact h url

theorem names_currentUid {k : Uid → Block} (h : ∀ uid, (k uid).Writes (NameOk lowercased)) :
    (currentUid k).Writes (NameOk lowercased) := fun app => by
  cases hu : app.currentUser with
  | none => simp only [hu]; trivial
  | some uid => simp only [hu]; exact h uid

theorem names_deleteWrites {uid : Uid} : (deleteWrites uid).Writes (NameOk lowercased) := by
  refine Code.Writes.andThen ?_ (names_currentUid fun uid =>
    ⟨fun (error : Option FIRError) => ?_, trivial⟩)
  · refine ⟨trivial, fun error => ?_, trivial⟩
    cases error with
    | some e => trivial
    | none =>
        refine ⟨fun (snapshot : Option (List (DocId × Dictionary))) => ?_, trivial⟩
        cases snapshot with
        | none => trivial
        | some documents => exact Code.Writes.forEach fun _ _ => ⟨trivial, fun _ => trivial, trivial⟩
  · cases error <;> trivial

theorem names_action (hlower : ∀ s, lowercased (lowercased s) = lowercased s) {a : Action}
    (ha : LowerEdit lowercased a) (app : App) :
    ((a.blockWith lowercased).start app).Writes (NameOk lowercased) := by
  by_cases hu : a.touches .users
  · cases a with
    | signUp email password fullname username image =>
        refine Code.Writes.start (Code.Writes.andThen (c := showLoader true) ?_ trivial)
        refine ⟨names_uploadImage fun url => ⟨fun (result : Except FIRError Uid) => ?_, trivial⟩,
          trivial⟩
        cases result with
        | error e => trivial
        | ok uid =>
            refine ⟨⟨hlower username, fun error => ?_, trivial⟩, trivial⟩
            cases error with
            | some e => trivial
            | none =>
                have hfetch : Touches (fun _ => False) (RegisterationController.onRegister none) :=
                  Touches.andThen (b := showLoader true) trivial touches_tab_fetchUser
                exact hfetch.mono fun _ h => h.elim
    | editProfile username fullname image =>
        refine Code.Writes.start (Code.Writes.andThen (c := showLoader true)
          (Code.Writes.andThen (d := showLoader false) trivial ?_) trivial)
        exact names_currentUid fun uid => names_uploadImage fun url =>
          ⟨⟨rfl, ha username fullname image rfl⟩, fun _ => trivial, trivial⟩
    | deleteAccount =>
        have htap := deleteTap app
        show (Action.deleteAccount.block.start app).Writes (NameOk lowercased)
        generalize Action.deleteAccount.block.start app = b at htap ⊢
        cases htap with
        | none => trivial
        | delete => exact ⟨names_deleteWrites, trivial⟩
    | _ => exact hu.elim
  · -- no other action writes to `users`, or depends on `lowercased`
    have hblock : a.blockWith lowercased = a.block := by
      cases a <;> first | rfl | exact absurd trivial hu
    rw [hblock]
    exact (touches_action a app).mono fun wr hw => nameOk_of_ne fun h => hu (h ▸ hw)

end

/-! ## Runs -/

variable {lowercased : String → String} {contains : String → String → Bool} {D : Type}
  [DecidableEq D]

/-- Nothing stored, nobody signed in. -/
def emptyWorldWith (lowercased : String → String) : World (villageWith lowercased) D where
  server := ({} : Server)
  devices _ := { loc := ({} : App) }

/-- Every profile edit is given a username in lower case. -/
def LowerEdits (_ : World (villageWith lowercased) D) (e : Event (villageWith lowercased) D) : Prop :=
  ∀ d (a : Action), e = .act d a → LowerEdit lowercased a

/-- What is outstanding stores lower case usernames only. -/
def Naming (lowercased : String → String) (w : World (villageWith lowercased) D) : Prop :=
  w.Under (fun _ => True) (fun _ _ => True) fun _ o =>
    ∀ wr, o = .issued wr ∨ (∃ r, o = .wrote wr r) → NameOk lowercased wr

/-- A write that is settled leaves lower case names. -/
theorem namesLower_settle {wr : Write} {fail : Option FIRError} {srv : Server}
    (hwr : NameOk lowercased wr) (hnames : NamesLower lowercased srv.docs) :
    NamesLower lowercased (settle village wr fail srv).1.docs := by
  intro id data hget
  cases hres : (settle village wr fail srv).2 with
  | some err => exact hnames id data (docs_refused hres ▸ hget)
  | none =>
      obtain ⟨-, docs, ha, hset⟩ := docs_accepted hres
      rw [hset, Documents.get_apply ha] at hget
      split at hget
      · next hr => exact hwr.written (congrArg Ref.collection hr).symm hget
      · exact hnames id data hget

theorem settle_villageWith {wr : Write} {fail : Option FIRError} {srv : Server} :
    settle (villageWith lowercased) wr fail srv = settle village wr fail srv := by
  cases fail with
  | some e => rfl
  | none =>
      simp only [settle, villageWith, village]
      cases Server.apply wr srv <;> rfl

theorem namesLower_step {w w' : World (villageWith lowercased) D}
    {e : Event (villageWith lowercased) D} (hw : Naming lowercased w)
    (hnames : NamesLower lowercased (Server.docs w.server)) (hs : Stepped w e w') :
    NamesLower lowercased (Server.docs w'.server) := by
  have same : ∀ {docs docs' : Documents Collection Value}, docs' = docs →
      NamesLower lowercased docs → NamesLower lowercased docs' := fun h hn => h ▸ hn
  cases hs with
  | @commit d fail m ms hm =>
      have hok : NameOk lowercased m.write :=
        ((hw d).2.writes m (by rw [hm]; exact List.mem_cons_self) none).1 _ (Or.inr ⟨_, rfl⟩)
      exact same (congrArg (fun r : Server × Option FIRError => r.1.docs) settle_villageWith)
        (namesLower_settle hok hnames)
  | @run d s v t c dev r htake hexec =>
      cases c with
      | done => cases hexec
      | env k =>
          obtain ⟨srv, hs, rfl⟩ := Option.map_eq_some_iff.mp hexec
          exact same (docs_supply hs) hnames
      | _ => cases hexec; exact hnames
  | answer hi hv => exact same (docs_serve hv) hnames
  | notify hi hv => exact same (docs_serve hv) hnames
  | _ => exact hnames

theorem namesLower_of_run {w : World (villageWith lowercased) D}
    (hlower : ∀ s, lowercased (lowercased s) = lowercased s)
    (hrun : Run LowerEdits (emptyWorldWith lowercased) w) :
    NamesLower lowercased (Server.docs w.server) := by
  have hinv : Naming lowercased w ∧ NamesLower lowercased (Server.docs w.server) := by
    refine hrun.inv (fun w => Naming lowercased w ∧ NamesLower lowercased (Server.docs w.server))
      ⟨fun d => ⟨trivial, Device.Under.of_idle rfl rfl⟩, fun id data h => by cases h⟩ ?_
    rintro w e w' ⟨hw, hnames⟩ hok hs
    refine ⟨(hw.step (fun _ _ _ _ _ => trivial) hs (fun d a he _ => ?_)
      fun _ _ _ _ _ _ => trivial).1,
      namesLower_step hw hnames hs⟩
    refine (names_action hlower (hok d a he) _).under (fun wr hwr => ⟨?_, fun r => ?_⟩) ?_ ?_ ?_ ?_
    · rintro wr' (h | ⟨r, h⟩) <;> cases h
      exact hwr
    · rintro wr' (h | ⟨r, h⟩) <;> cases h
      exact hwr
    · rintro q a wr (h | ⟨_, h⟩) <;> cases h
    · rintro v wr (h | ⟨_, h⟩) <;> cases h
    · rintro f wr (h | ⟨_, h⟩) <;> cases h
    · rintro x wr (h | ⟨_, h⟩) <;> cases h
  exact hinv.2

/-! ## Searches -/

/-- Whatever accounts register and edit, on any number of devices and in any
order: as long as every edit is given a lower case username, a search in
the list of users shows the users that match. -/
theorem updateSearchResults_exact {w : World (villageWith lowercased) D} {users : List User}
    (hlower : ∀ s, lowercased (lowercased s) = lowercased s)
    (hrun : Run LowerEdits (emptyWorldWith lowercased) w)
    (hfetched : Delivers w.server UserService.fetchUsers users) (text : String) :
    SearchController.updateSearchResults lowercased contains users text =
      matchingUsers lowercased contains users text := by
  refine updateSearchResults_eq_matchingUsers (fun user hu => ?_) text
  rw [delivers_fetchUsers.mp hfetched] at hu
  obtain ⟨x, hx, rfl⟩ := List.mem_map.mp hu
  exact namesLower_of_run hlower hrun x.1 x.2 (Documents.mem_select.mp hx).1

/-! ## With the case mapping of ASCII -/

theorem toLower_eq {s s' : String} (h : s.toList.map Char.toLower = s'.toList) :
    s.toLower = s' :=
  String.toList_inj.mp (String.toList_map.trans h)

theorem Char.toLower_toLower (c : Char) : c.toLower.toLower = c.toLower := by
  delta Char.toLower
  split
  · split
    · next h h' =>
        simp only [UInt32.le_iff_toNat_le, UInt32.toNat_add, seval] at h h'
        omega
    · simp
  · rfl

theorem toLower_toLower (s : String) : s.toLower.toLower = s.toLower := by
  have hmap : s.toLower.toLower = (s.map Char.toLower).map Char.toLower := rfl
  rw [hmap, String.map_map]
  simp only [Function.comp_def, Char.toLower_toLower]
  rfl

def smoothWith (lowercased : String → String) : Policy (villageWith lowercased) where
  env := smooth.env
  choice := smooth.choice

/-- Does the text occur in the string? -/
def occursIn (s text : String) : Bool := decide (text.toList <:+: s.toList)

/-- Alice has signed up, and then taken another username. -/
def renamed (username : String) : World (villageWith String.toLower) Unit :=
  emptyWorldWith String.toLower
    |> (smoothWith String.toLower).perform ()
      (.signUp "alice@dog.kr" "secret" "Alice" "alice" ⟨some []⟩ : Action) 100
    |> (smoothWith String.toLower).perform ()
      (.editProfile username "dog" ⟨some []⟩ : Action) 100

/-- A run of sign-ups and profile edits. -/
def NamesOnly (_ : World (villageWith lowercased) D) (e : Event (villageWith lowercased) D) :
    Prop :=
  ∀ d (a : Action), e = .act d a →
    (∃ email password fullname username image, a = .signUp email password fullname username image) ∨
      ∃ username fullname image, a = .editProfile username fullname image

theorem renamed_reached {username : String}
    {ok : World (villageWith String.toLower) Unit → Event (villageWith String.toLower) Unit → Prop}
    (hother : ∀ w e, (∀ d a, e ≠ .act d a) → ok w e)
    (hsignUp : ∀ w d email password fullname name image,
      ok w (.act d (.signUp email password fullname name image : Action)))
    (hedit : ∀ w d fullname image, ok w (.act d (.editProfile username fullname image : Action))) :
    Run ok (emptyWorldWith String.toLower) (renamed username) := by
  have hpick : ∀ w e, (smoothWith String.toLower).pick () w = some e → ok w e := fun w e h =>
    hother w e fun d a he => (Policy.pick_own h).2.1 a (by cases d; exact he)
  exact Policy.run_perform hpick (hedit _ _ _ _)
    (Policy.run_perform hpick (hsignUp _ _ _ _ _ _ _) .refl)

theorem delivers_renamed (username : String) :
    Delivers (renamed username).server UserService.fetchUsers (((renamed username).server.docs.select
      { collection := .users }).map fun document => User.init document.2) :=
  delivers_fetchUsers.mpr rfl

/-- Renamed to bob, she is found. -/
theorem updateSearchResults_exact_renamed :
    SearchController.updateSearchResults String.toLower occursIn
        (((renamed "bob").server.docs.select { collection := .users }).map fun document =>
          User.init document.2) "BO" =
      matchingUsers String.toLower occursIn
        (((renamed "bob").server.docs.select { collection := .users }).map fun document =>
          User.init document.2) "BO" :=
  updateSearchResults_exact toLower_toLower
    (@renamed_reached "bob" _ (fun _ e h d a he => absurd he (h d a))
      (fun _ _ _ _ _ _ _ d a he username fullname image ha => by cases he; cases ha)
      fun _ _ _ _ d a he username fullname image ha => by
        cases he
        cases ha
        exact toLower_eq rfl)
    (delivers_renamed "bob") "BO"

/-- Renamed to Bob, she is not. -/
theorem upper_case_username_missed : ∃ (w : World (villageWith String.toLower) Unit)
    (users : List User) (text : String), Run NamesOnly (emptyWorldWith String.toLower) w ∧
      Delivers w.server UserService.fetchUsers users ∧ text ≠ "" ∧
      SearchController.updateSearchResults String.toLower occursIn users text ≠
        matchingUsers String.toLower occursIn users text := by
  refine ⟨renamed "Bob", _, "bob", ?_, delivers_renamed "Bob", by decide, ?_⟩
  · refine renamed_reached (fun _ e h d a he => absurd he (h d a))
      (fun _ _ _ _ _ _ _ d a he => ?_) fun _ _ _ _ d a he => ?_
    · cases he; exact Or.inl ⟨_, _, _, _, _, rfl⟩
    · cases he; exact Or.inr ⟨_, _, _, rfl⟩
  · have hbob : "bob".toLower = "bob" := toLower_eq rfl
    have hBob : "Bob".toLower = "bob" := toLower_eq rfl
    have hdog : "dog".toLower = "dog" := toLower_eq rfl
    generalize hu : ((renamed "Bob").server.docs.select { collection := .users }).map
      (fun document => User.init document.2) = users
    have hnames : users.map (fun user => (user.username, user.fullname)) = [("Bob", "dog")] := by
      rw [← hu]
      decide
    obtain ⟨user, rfl, hname⟩ := List.map_eq_singleton_iff.mp hnames
    obtain ⟨husername, hfullname⟩ := Prod.mk.inj hname
    have hrows : SearchController.updateSearchResults String.toLower occursIn [user] "bob" = [] := by
      simp only [SearchController.updateSearchResults, List.filter, husername, hfullname, hbob, hdog]
      rfl
    have hmatching : matchingUsers String.toLower occursIn [user] "bob" = [user] := by
      simp only [matchingUsers, List.filter, husername, hbob, hBob]
      rfl
    rw [hrows, hmatching]
    simp

end DogVillage
