import DogVillage.Search

/-!
# The rows of a search

The table of the search screen asks its data source for the number of its
rows when it is reloaded, for the cell of a row when the row comes into
view, and reports a row that is selected. The first two read the list that
is shown, the filtered one while searching; the selection reads the list of
all users. It opens the user shown as long as the filter keeps the first of
the users.
-/

namespace DogVillage

open Async

/-- The search screen: its lists, the search bar, and what the table keeps
since it was reloaded. -/
structure SearchTable extends SearchController where
  filteredUsers : List User := []
  /-- `searchController.isActive` -/
  isActive : Bool := false
  /-- `searchBar.text!` -/
  text : String := ""
  /-- The number of rows, and the user in each row that has a cell. -/
  rows : Nat := 0
  cells : Nat → Option User := fun _ => none

namespace SearchTable

/-- What happens to the screen. `update` is a call of `updateSearchResults`
without a change of the text, `display` a row that comes into view. -/
inductive Event
  | fetched (users : List User)
  | activate
  | change (text : String)
  | cancel
  | update
  | display (row : Nat)

variable (lowercased : String → String) (contains : String → String → Bool)

def inSearchMode (s : SearchTable) : Bool := s.isActive && s.text != ""

/-- `tableView(_:numberOfRowsInSection:)` -/
def numberOfRowsInSection (s : SearchTable) : Nat :=
  if s.inSearchMode then s.filteredUsers.length else s.users.length

/-- `tableView(_:cellForRowAt:)`: the user shown, if the index is in range. -/
def cellForRowAt (s : SearchTable) (row : Nat) : Option User :=
  if s.inSearchMode then s.filteredUsers[row]? else s.users[row]?

/-- `tableView(_:didSelectRowAt:)`: the user whose profile is opened, if the
index is in range. -/
def didSelectRowAt (s : SearchTable) (row : Nat) : Option User := s.users[row]?

def reloadData (s : SearchTable) : SearchTable :=
  { s with rows := s.numberOfRowsInSection, cells := fun _ => none }

/-- The completion of `fetchUsers` -/
def didFetchUsers (users : List User) (s : SearchTable) : SearchTable :=
  reloadData { s with users := users }

def updateSearchResults (s : SearchTable) : SearchTable :=
  reloadData { s with
    filteredUsers := SearchController.updateSearchResults lowercased contains s.users s.text }

/-- A change of the text, which only an active search bar takes, and the
cancel button, which clears it, are followed by `updateSearchResults`. -/
def step (s : SearchTable) : Event → Option SearchTable
  | .fetched users => some (s.didFetchUsers users)
  | .activate => some { s with isActive := true }
  | .change text =>
      if s.isActive then some (updateSearchResults lowercased contains { s with text := text })
      else none
  | .cancel =>
      some (updateSearchResults lowercased contains { s with isActive := false, text := "" })
  | .update => some (s.updateSearchResults lowercased contains)
  | .display row =>
      if row < s.rows then
        (s.cellForRowAt row).map fun user =>
          { s with cells := Function.update s.cells row (some user) }
      else none

inductive Reached : SearchTable → Prop
  | load {posts : List Post} : Reached { posts := posts }
  | step {s s' e} : Reached s → s.step lowercased contains e = some s' → Reached s'

/-- The user a row shows: that of its cell, or of the cell it is given when
it comes into view. -/
def shown (s : SearchTable) (row : Nat) : Option User := (s.cells row).or (s.cellForRowAt row)

/-- The row is in range, and selecting it opens the user it shows. -/
def Opens (s : SearchTable) (row : Nat) : Prop :=
  ∃ user, s.shown row = some user ∧ s.didSelectRowAt row = some user

/-- The users shown are the first of all users. -/
def FirstShown (s : SearchTable) : Prop := s.inSearchMode = true → s.filteredUsers <+: s.users

/-- The filter ran on the users that are there. -/
def Fresh (s : SearchTable) : Prop :=
  s.filteredUsers = SearchController.updateSearchResults lowercased contains s.users s.text

/-- `updateSearchResults` keeps the user. -/
def keeps (text : String) (user : User) : Bool :=
  contains user.username (lowercased text) || contains (lowercased user.fullname) (lowercased text)

/-- No user the text leaves out stands before one it keeps. -/
def KeptFirst (s : SearchTable) : Prop :=
  s.inSearchMode = true → s.users.Pairwise fun user later =>
    keeps lowercased contains s.text later = true → keeps lowercased contains s.text user = true

/-! ## The rows -/

/-- The list the rows are read from. -/
def listed (s : SearchTable) : List User := if s.inSearchMode then s.filteredUsers else s.users

theorem numberOfRowsInSection_eq (s : SearchTable) : s.numberOfRowsInSection = s.listed.length := by
  unfold numberOfRowsInSection listed
  split <;> rfl

theorem cellForRowAt_eq (s : SearchTable) (row : Nat) : s.cellForRowAt row = s.listed[row]? := by
  unfold cellForRowAt listed
  split <;> rfl

/-- What the table keeps is what the lists say. -/
structure Current (s : SearchTable) : Prop where
  rows : s.rows = s.listed.length
  cells : ∀ row user, s.cells row = some user → s.listed[row]? = some user
  /-- The search bar is left empty. -/
  text : s.isActive = false → s.text = ""

theorem current_reloadData {s : SearchTable} (h : s.isActive = false → s.text = "") :
    s.reloadData.Current where
  rows := s.numberOfRowsInSection_eq
  cells row user h := by cases h
  text := h

variable {lowercased contains}

theorem Current.step {s s' : SearchTable} {e : Event} (h : s.Current)
    (hs : s.step lowercased contains e = some s') : s'.Current := by
  cases e with
  | fetched users =>
      cases hs
      exact current_reloadData h.text
  | activate =>
      cases hs
      -- the list shown is the same one, as a bar that was not active holds no text
      have hlist : ({ s with isActive := true } : SearchTable).listed = s.listed := by
        cases ha : s.isActive with
        | true => simp [listed, inSearchMode, ha]
        | false => simp [listed, inSearchMode, ha, h.text ha]
      refine ⟨?_, ?_, by simp⟩
      · rw [hlist]
        exact h.rows
      · rw [hlist]
        exact h.cells
  | change text =>
      simp only [SearchTable.step] at hs
      split at hs
      · next ha =>
          cases hs
          exact current_reloadData fun hne => by simp [ha] at hne
      · cases hs
  | cancel =>
      cases hs
      exact current_reloadData fun _ => rfl
  | update =>
      cases hs
      exact current_reloadData h.text
  | display row =>
      simp only [SearchTable.step] at hs
      split at hs
      · obtain ⟨user, huser, rfl⟩ := Option.map_eq_some_iff.mp hs
        refine ⟨h.rows, fun row' user' hcell => ?_, h.text⟩
        have hcell : Function.update s.cells row (some user) row' = some user' := hcell
        show s.listed[row']? = some user'
        by_cases hr : row' = row
        · subst hr
          rw [Function.update_self] at hcell
          cases hcell
          rw [← cellForRowAt_eq]
          exact huser
        · rw [Function.update_of_ne hr] at hcell
          exact h.cells row' user' hcell
      · cases hs

theorem current_of_reached {s : SearchTable} (h : Reached lowercased contains s) : s.Current := by
  induction h with
  | load => exact ⟨rfl, by simp, fun _ => rfl⟩
  | step _ hs ih => exact ih.step hs

theorem Current.shown {s : SearchTable} (h : s.Current) (row : Nat) :
    s.shown row = s.listed[row]? := by
  unfold SearchTable.shown
  cases hc : s.cells row with
  | none => rw [Option.none_or, cellForRowAt_eq]
  | some user => rw [Option.some_or, h.cells row user hc]

/-! ## The selection -/

/-- In search mode the rows are those of the filtered list, and the profile
opened is that of the user at the same index of the list of all users. -/
theorem Current.opens_iff {s : SearchTable} (h : s.Current) :
    (∀ row, row < s.rows → s.Opens row) ↔ s.FirstShown := by
  have hopens : ∀ row, row < s.listed.length → (s.Opens row ↔ s.users[row]? = s.listed[row]?) := by
    intro row hrow
    unfold Opens didSelectRowAt
    rw [h.shown row, List.getElem?_eq_getElem hrow]
    constructor
    · rintro ⟨user, hshown, huser⟩
      rw [huser, hshown]
    · exact fun huser => ⟨_, rfl, huser⟩
  rw [h.rows, FirstShown]
  cases hm : s.inSearchMode with
  | false =>
      have hlist : s.listed = s.users := by simp [listed, hm]
      rw [hlist] at hopens ⊢
      exact iff_of_true (fun row hrow => (hopens row hrow).mpr rfl) (by simp)
  | true =>
      have hlist : s.listed = s.filteredUsers := by simp [listed, hm]
      rw [hlist] at hopens ⊢
      rw [List.prefix_iff_getElem?]
      constructor
      · intro hall _ row hrow
        rw [(hopens row hrow).mp (hall row hrow), List.getElem?_eq_getElem hrow]
      · intro hfirst row hrow
        rw [hopens row hrow, hfirst rfl row hrow, List.getElem?_eq_getElem hrow]

/-- A filtered list is a prefix of the list if nothing that is left out stands
before something that is kept, and only then. -/
theorem filter_prefix_iff {α : Type} {p : α → Bool} : ∀ {l : List α},
    l.filter p <+: l ↔ l.Pairwise fun x y => p y = true → p x = true
  | [] => by simp
  | x :: l => by
      rw [List.pairwise_cons, ← filter_prefix_iff]
      cases hx : p x with
      | true =>
          rw [List.filter_cons_of_pos hx, List.cons_prefix_cons]
          exact and_congr_left fun _ => iff_of_true rfl fun _ _ _ => rfl
      | false =>
          rw [List.filter_cons_of_neg (by simp [hx])]
          constructor
          · intro h
            have hnone : l.filter p = [] := by
              rcases List.prefix_cons_iff.mp h with hnil | ⟨t, hl, -⟩
              · exact hnil
              · have hmem : x ∈ l.filter p := hl ▸ List.mem_cons_self
                rw [(List.mem_filter.mp hmem).2] at hx
                cases hx
            rw [hnone]
            exact ⟨fun y hy hkept => absurd hkept (List.filter_eq_nil_iff.mp hnone y hy),
              List.nil_prefix⟩
          · rintro ⟨hnone, -⟩
            rw [List.filter_eq_nil_iff.mpr fun y hy hkept => by cases hnone y hy hkept]
            exact List.nil_prefix

theorem firstShown_iff {s : SearchTable} (h : s.Fresh lowercased contains) :
    s.FirstShown ↔ s.KeptFirst lowercased contains := by
  have hfilter : s.filteredUsers = s.users.filter (keeps lowercased contains s.text) := h
  rw [FirstShown, KeptFirst, hfilter, filter_prefix_iff]

/-- Only the arrival of other users lets the filtered list fall behind. -/
theorem Fresh.step {s s' : SearchTable} {e : Event} (h : s.Fresh lowercased contains)
    (hs : s.step lowercased contains e = some s') (he : ∀ users, e ≠ .fetched users) :
    s'.Fresh lowercased contains := by
  cases e with
  | fetched users => exact absurd rfl (he users)
  | activate =>
      cases hs
      exact h
  | change text =>
      simp only [SearchTable.step] at hs
      split at hs
      · cases hs
        rfl
      · cases hs
  | cancel =>
      cases hs
      rfl
  | update =>
      cases hs
      rfl
  | display row =>
      simp only [SearchTable.step] at hs
      split at hs
      · obtain ⟨user, -, rfl⟩ := Option.map_eq_some_iff.mp hs
        exact h
      · cases hs

/-- The app opens the same profile: the selection reads the list of users. -/
theorem start_didSelectRowAt {s : SearchTable} {app : App} {i row : Nat}
    (hi : app.searches[i]? = some s.toSearchController) :
    (SearchController.didSelectRowAt i row).start app =
      match s.didSelectRowAt row with
      | some user => (FeedController.showProfile user).start app
      | none => .done := by
  simp only [SearchController.didSelectRowAt, SearchController.get, Code.start, hi, didSelectRowAt]
  cases s.users[row]? <;> rfl

/-- In every state of the screen the rows are in range of the list they are
read from; each opens the user it shows if and only if the screen is not in
search mode or no other user stands before the filtered ones: none that the
text leaves out, as long as the users were there when the filter ran. -/
theorem rows_of_reached {s : SearchTable} (h : Reached lowercased contains s) :
    (∀ row, row < s.rows → ∃ user, s.shown row = some user ∧ s.cellForRowAt row = some user) ∧
      ((∀ row, row < s.rows → s.Opens row) ↔ s.FirstShown) ∧
      (s.Fresh lowercased contains → (s.FirstShown ↔ s.KeptFirst lowercased contains)) := by
  have hcur := current_of_reached h
  refine ⟨fun row hrow => ?_, hcur.opens_iff, firstShown_iff⟩
  rw [hcur.rows] at hrow
  rw [hcur.shown row, cellForRowAt_eq, List.getElem?_eq_getElem hrow]
  exact ⟨_, rfl, rfl⟩

/-! ## Two users -/

def amy : User := User.init [("username", .string "amy"), ("uid", .string "a")]

def bob : User := User.init [("username", .string "bob"), ("uid", .string "b")]

/-- The users have been fetched, and the text typed into the search bar. -/
def typed (text : String) : SearchTable :=
  updateSearchResults String.toLower occursIn
    { ({ users := [amy, bob], rows := 2 } : SearchTable) with isActive := true, text := text }

theorem reached_typed (text : String) : Reached String.toLower occursIn (typed text) := by
  have hload : Reached String.toLower occursIn {} := .load
  have hfetched := hload.step (e := .fetched [amy, bob]) rfl
  have hactive := hfetched.step (e := .activate) rfl
  exact hactive.step (e := .change text) rfl

theorem filtered_typed {text l : String} (h : text.toLower = l) :
    (typed text).filteredUsers = [amy, bob].filter fun user => occursIn user.username l ||
      occursIn "" l := by
  have hname : "".toLower = "" := toLower_eq rfl
  show SearchController.updateSearchResults _ _ _ _ = _
  rw [SearchController.updateSearchResults, h]
  refine List.filter_congr fun user hu => ?_
  have hfull : user.fullname = "" := by
    rcases List.mem_pair.mp hu with rfl | rfl <;> rfl
  rw [hfull, hname]

/-- Searched for, Amy is opened. -/
theorem rows_typed_amy : Reached String.toLower occursIn (typed "amy") ∧
    ∀ row, row < (typed "amy").rows → (typed "amy").Opens row := by
  refine ⟨reached_typed "amy", (rows_of_reached (reached_typed "amy")).2.1.mpr fun _ => ?_⟩
  rw [filtered_typed (l := "amy") (toLower_eq rfl)]
  decide

/-- Searched for, Bob is shown, and Amy is opened. -/
theorem typed_bob_opens_amy : Reached String.toLower occursIn (typed "bob") ∧
    0 < (typed "bob").rows ∧ (typed "bob").shown 0 = some bob ∧
      (typed "bob").didSelectRowAt 0 = some amy ∧ amy ≠ bob := by
  have hrows : (typed "bob").filteredUsers = [bob] := by
    rw [filtered_typed (l := "bob") (toLower_eq rfl)]
    decide
  have hlisted : (typed "bob").listed = [bob] := by
    rw [← hrows]
    rfl
  have hcur := current_of_reached (reached_typed "bob")
  refine ⟨reached_typed "bob", ?_, ?_, rfl, by decide⟩
  · rw [hcur.rows, hlisted]
    simp
  · rw [hcur.shown, hlisted]
    rfl

end SearchTable

end DogVillage
