import DogVillage.Changes
import DogVillage.OneCell

/-!
# Rebinding a cell

A cell keeps its own copy of what it was bound to. A controller reloads its
view whenever it changes what it binds cells from, and then no cell is in a
row until it is bound again; so a cell in a row shows what its controller
has for that row, but for the effects of a tap on the cell's own button.
Those change the copy and not the list: bound again, the cell shows what it
showed before the tap.
-/

namespace DogVillage

open Async

/-- The notification shown by cell `c` of screen `i`. -/
def shownNotification (app : App) (i c : Nat) : Option Notification :=
  app.notifications[i]?.bind (·.cells c)

section

variable {app : App} {i j c c' row : Nat}

/-! ## Posts in cells -/

theorem shownPost_modify {g : FeedController → FeedController}
    (h : j = i → ∀ feed, (g feed).cells c = feed.cells c) :
    Action.shownPost { app with feeds := app.feeds.modify j g } i c = Action.shownPost app i c := by
  simp only [Action.shownPost, List.getElem?_modify]
  cases app.feeds[i]? with
  | none => rfl
  | some feed =>
      split
      · next hj => exact h hj feed
      · rfl

theorem shownPost_push {f : App → App} {feed : FeedController}
    (h : ∀ app, (f app).feeds = app.feeds ++ [feed]) (hcells : feed.cells = fun _ => none) :
    Action.shownPost (f app) i c = Action.shownPost app i c := by
  simp only [Action.shownPost, h]
  rcases Nat.lt_trichotomy i app.feeds.length with hi | rfl | hi
  · rw [List.getElem?_append_left hi]
  · simp [hcells]
  · rw [List.getElem?_eq_none (by simp; omega), List.getElem?_eq_none (by omega)]

theorem shownPost_lists {f : App → App} {g : FeedController → FeedController}
    (h : ∀ app, (f app).feeds = app.feeds.modify j g) (hcells : ∀ feed, (g feed).cells = feed.cells) :
    Action.shownPost (f app) i c = Action.shownPost app i c := by
  have : Action.shownPost { app with feeds := app.feeds.modify j g } i c =
      Action.shownPost app i c := shownPost_modify fun _ feed => by rw [hcells feed]
  simpa only [Action.shownPost, h] using this

theorem shownPost_bind :
    Action.shownPost (bindFeedCell i row c app) i c =
      (app.feeds[i]?.bind fun feed => feed.post.or feed.posts[row]?).or
        (Action.shownPost app i c) := by
  simp only [Action.shownPost, bindFeedCell, List.getElem?_modify_eq]
  cases app.feeds[i]? with
  | none => rfl
  | some feed =>
      simp only [Option.map_eq_map, Option.map_some, Option.bind_some]
      cases feed.post.or feed.posts[row]? with
      | none => rfl
      | some post => simp

/-- Binding another cell. -/
theorem shownPost_bind_ne (h : j = i → c ≠ c') :
    Action.shownPost (bindFeedCell j row c' app) i c = Action.shownPost app i c := by
  refine shownPost_modify fun hj feed => ?_
  split
  · exact Function.update_of_ne (h hj) _ _
  · rfl

/-- Changing the post of another cell. -/
theorem shownPost_setCell_ne {g : Post → Post} (h : j = i → c ≠ c') :
    Action.shownPost { app with feeds := app.feeds.modify j (FeedController.setCell c' g) } i c =
      Action.shownPost app i c :=
  shownPost_modify fun hj _ => Function.update_of_ne (h hj) _ _

/-! ## Notifications in cells -/

theorem shownNotification_bind :
    shownNotification (bindRowCell i row c app) i c =
      (app.notifications[i]?.bind fun n => n.notifications[row]?).or
        (shownNotification app i c) := by
  simp only [shownNotification, bindRowCell, List.getElem?_modify_eq]
  cases app.notifications[i]? with
  | none => rfl
  | some n =>
      simp only [Option.map_eq_map, Option.map_some, Option.bind_some]
      cases n.notifications[row]? with
      | none => rfl
      | some x => simp

end

/-! ## Rows -/

/-- Cell `c`, if it is in a row, shows what the feed has for that row. -/
def FeedController.Current (feed : FeedController) (c : Nat) : Prop :=
  ∀ row, feed.rows c = some row → feed.cells c = feed.post.or feed.posts[row]?

/-- Cell `c`, if it is in a row, shows the row's notification. -/
def NotificationController.Current (n : NotificationController) (c : Nat) : Prop :=
  ∀ row, n.rows c = some row → n.cells c = n.notifications[row]?

section

variable {feed feed' : FeedController} {n n' : NotificationController} {c c' row : Nat}

theorem FeedController.current_of_rows (h : feed.rows = fun _ => none) : feed.Current c :=
  fun row hrow => by rw [h] at hrow; cases hrow

theorem NotificationController.current_of_rows (h : n.rows = fun _ => none) : n.Current c :=
  fun row hrow => by rw [h] at hrow; cases hrow

theorem FeedController.Current.congr (h : feed.Current c) (hpost : feed'.post = feed.post)
    (hposts : feed'.posts = feed.posts) (hcells : feed'.cells c = feed.cells c)
    (hrows : feed'.rows = feed.rows) : feed'.Current c := by
  intro row hrow
  rw [hcells, hpost, hposts]
  exact h row (hrows ▸ hrow)

theorem NotificationController.Current.congr (h : n.Current c)
    (hlist : n'.notifications = n.notifications) (hcells : n'.cells c = n.cells c)
    (hrows : n'.rows = n.rows) : n'.Current c := by
  intro row hrow
  rw [hcells, hlist]
  exact h row (hrows ▸ hrow)

theorem FeedController.Current.bind {post : Post} (h : feed.Current c)
    (hpost : feed.post.or feed.posts[row]? = some post) :
    FeedController.Current
      { feed with
        cells := Function.update feed.cells c' (some post)
        rows := Function.update feed.rows c' (some row) } c := by
  intro row' hrow
  by_cases hc : c = c'
  · subst hc
    obtain rfl : row = row' := by simpa using hrow
    simpa using hpost.symm
  · simp only [Function.update_of_ne hc] at hrow ⊢
    exact h row' hrow

theorem NotificationController.Current.bind {notification : Notification} (h : n.Current c)
    (hrow : n.notifications[row]? = some notification) :
    NotificationController.Current
      { n with
        cells := Function.update n.cells c' (some notification)
        rows := Function.update n.rows c' (some row) } c := by
  intro row' hrow'
  by_cases hc : c = c'
  · subst hc
    obtain rfl : row = row' := by simpa using hrow'
    simpa using hrow.symm
  · simp only [Function.update_of_ne hc] at hrow' ⊢
    exact h row' hrow'

end

namespace Cell

/-- What the user sees of a cell. -/
inductive Display
  | post (didLike : Bool) (likes : Int)
  | notification (userIsFollowed : Bool)
deriving DecidableEq, Repr

def display (app : App) : Cell → Option Display
  | post i c => (Action.shownPost app i c).map fun x => .post x.didLike x.likes
  | notification i c => (shownNotification app i c).map fun x => .notification x.userIsFollowed

/-- `cellForItemAt` and `cellForRowAt`, for row `row` -/
def bind (row : Nat) : Cell → App → App
  | post i c => bindFeedCell i row c
  | notification i c => bindRowCell i row c

/-- The row the cell is in. -/
def row (app : App) : Cell → Option Nat
  | post i c => app.feeds[i]?.bind (·.rows c)
  | notification i c => app.notifications[i]?.bind (·.rows c)

/-- If the cell is in a row, it shows what its controller has for the row. -/
def Current (app : App) : Cell → Prop
  | post i c => ∀ feed, app.feeds[i]? = some feed → feed.Current c
  | notification i c => ∀ n, app.notifications[i]? = some n → n.Current c

variable {app : App} {cell : Cell}

/-! ## Binding -/

/-- Such a cell may be bound again, and shows what it shows already. -/
theorem Current.display_bind {row : Nat} (h : cell.Current app) (hrow : cell.row app = some row) :
    cell.display (cell.bind row app) = cell.display app := by
  cases cell with
  | post i c =>
      obtain ⟨feed, hfeed, hrow⟩ := Option.bind_eq_some_iff.mp hrow
      have hdata := h feed hfeed row hrow
      refine congrArg (Option.map _) (shownPost_bind.trans ?_)
      simp only [Action.shownPost, hfeed, Option.bind_some, hdata, Option.or_self]
  | notification i c =>
      obtain ⟨n, hn, hrow⟩ := Option.bind_eq_some_iff.mp hrow
      have hdata := h n hn row hrow
      refine congrArg (Option.map _) (shownNotification_bind.trans ?_)
      simp only [shownNotification, hn, Option.bind_some, hdata, Option.or_self]

/-! ## What may happen to a cell -/

/-- A change that is no effect of a tap on the cell's button. What changes
the list reloads. -/
theorem Current.change {Read : DocId → Int → Prop} {taps : Cell → Prop} {t : Call} {f : App → App}
    (h : cell.Current app) (hf : Change Read taps t f) (htaps : ¬taps cell) :
    cell.Current (f app) := by
  cases cell with
  | post i c =>
      -- the cell of another tap is another cell
      have tapped : ∀ {j c' : Nat} {g : Post → Post}, taps (.post j c') →
          (post i c).Current
            { app with feeds := app.feeds.modify j (FeedController.setCell c' g) } := by
        intro j c' g ht feed' hfeed
        obtain ⟨feed, hold, rfl⟩ := getElem?_modify_some hfeed
        split
        · next hj =>
            subst hj
            refine (h feed hold).congr rfl rfl ?_ rfl
            exact Function.update_of_ne (fun hc => htaps (by rw [hc]; exact ht)) _ _
        · exact h feed hold
      intro feed' hfeed
      cases hf.feeds with
      | keep hkeep => exact h feed' (hkeep app ▸ hfeed)
      | push hpush _ hrows =>
          rw [hpush] at hfeed
          rcases getElem?_push_some hfeed with hold | rfl
          · exact h feed' hold
          · exact FeedController.current_of_rows hrows
      | lists hmod _ hrows =>
          rw [hmod] at hfeed
          obtain ⟨feed, hold, rfl⟩ := getElem?_modify_some hfeed
          split
          · rcases hrows feed with hsame | hnone
            · rw [hsame]
              exact h feed hold
            · exact FeedController.current_of_rows hnone
          · exact h feed hold
      | bind hbind =>
          subst hbind
          obtain ⟨feed, hold, rfl⟩ := getElem?_modify_some hfeed
          split
          · split
            · next hpost => exact (h feed hold).bind hpost
            · exact h feed hold
          · exact h feed hold
      | toggle htoggle ht _ =>
          subst htoggle
          exact tapped ht feed' hfeed
      | count hcount ht _ =>
          subst hcount
          exact tapped ht feed' hfeed
  | notification i c =>
      intro n' hn
      cases hf.rows with
      | keep hkeep => exact h n' (hkeep app ▸ hn)
      | push hpush _ hrows =>
          rw [hpush] at hn
          rcases getElem?_push_some hn with hold | rfl
          · exact h n' hold
          · exact NotificationController.current_of_rows hrows
      | lists hmod _ hrows =>
          rw [hmod] at hn
          obtain ⟨n, hold, rfl⟩ := getElem?_modify_some hn
          split
          · rcases hrows n with hsame | hnone
            · rw [hsame]
              exact h n hold
            · exact NotificationController.current_of_rows hnone
          · exact h n hold
      | bind hbind =>
          subst hbind
          obtain ⟨n, hold, rfl⟩ := getElem?_modify_some hn
          split
          · split
            · next hnotification => exact (h n hold).bind hnotification
            · exact h n hold
          · exact h n hold
      | toggle htoggle ht =>
          subst htoggle
          obtain ⟨n, hold, rfl⟩ := getElem?_modify_some hn
          split
          · next hj =>
              subst hj
              refine (h n hold).congr rfl ?_ rfl
              exact Function.update_of_ne (fun hc => htaps (by rw [hc]; exact ht)) _ _
          · exact h n hold

end Cell

/-! ## Every run -/

/-- No tap on the cell's button takes effect on `d`. -/
def Untapped {D : Type} (d : D) (cell : Cell) (w : World village D) (e : Event village D) : Prop :=
  ∀ a, e = .act d a → ¬Action.Taps a cell (w.devices d).loc

/-- Whatever is outstanding does no tap's work on the cell, which shows what
its row has. -/
structure Spared (cell : Cell) (dev : Device village) : Prop where
  lists : Lists (fun _ _ => True) dev.loc
  code : dev.Under (Lists fun _ _ => True) (AnswersRead fun _ _ => True)
    (Changes (fun _ _ => True) (· ≠ cell))
  current : cell.Current dev.loc

section

variable {D : Type} [DecidableEq D] {d : D} {cell : Cell} {row : Nat}
  {w w' : World village D} {e : Event village D}

theorem answersRead_true {q : Ask} {a : q.Ans} : AnswersRead (fun _ _ => True) q a := by
  cases q <;> simp [AnswersRead]

omit [DecidableEq D] in
theorem spared_emptyWorld : Spared cell ((emptyWorld : World village D).devices d) := by
  refine ⟨⟨?_, ?_, ?_, ?_⟩, .of_idle rfl rfl, ?_⟩
  · simp
  · simp
  · simp
  · simp
  · cases cell with
    | post i c => exact fun _ h => by cases h
    | notification i c => exact fun _ h => by cases h

theorem Spared.step (h : Spared cell (w.devices d)) (hok : Untapped d cell w e)
    (hs : Stepped w e w') : Spared cell (w'.devices d) := by
  obtain ⟨hcode, -, hloc⟩ := h.code.step (fun _ => Changes.preserves) h.lists hs
    (fun a he => kind_action (fun cell' ht hc => hok a he (hc ▸ ht)) h.lists)
    fun _ _ _ _ _ => answersRead_true
  refine ⟨hloc.keeps (fun _ => Changes.preserves) h.lists, hcode, ?_⟩
  cases hloc with
  | same hsame =>
      rw [hsame]
      exact h.current
  | changed _ _ hf hloc =>
      rw [hloc]
      exact h.current.change (hf _ rfl) fun hne => hne rfl

/-- A cell that is in a row, and on whose button no tap has taken effect:
bound again to that row it shows what it shows already. -/
theorem display_bind_of_run (hrun : Run (Untapped d cell) emptyWorld w)
    (hrow : cell.row (w.devices d).loc = some row) :
    cell.display (cell.bind row (w.devices d).loc) = cell.display (w.devices d).loc := by
  have hspared : Spared cell (w.devices d) :=
    hrun.inv (fun w : World village D => Spared cell (w.devices d)) spared_emptyWorld
      fun _ _ _ h hok hs => h.step hok hs
  exact hspared.current.display_bind hrow

end

/-! ## Runs -/

/-- Alice's own post is in her feed's list, and a cell is bound to it. -/
def ownPostShown : World village Unit :=
  emptyWorld
    |> smooth.perform () (.signUp "alice@dog.kr" "secret" "Alice" "alice" ⟨some []⟩) 100
    |> smooth.perform () (.didFinishPicking ⟨some []⟩) 100
    |> smooth.perform () (.tapDone 0 "walk") 100
    |> smooth.perform () (.feedDidLoad 0) 100
    |> smooth.perform () (.feedCell 0 0 0) 100

theorem untapped_smooth {cell : Cell} {w : World village Unit} {e : Event village Unit}
    (h : smooth.pick () w = some e) : Untapped () cell w e :=
  fun _ he => absurd he ((Policy.pick_own h).2.1 _)

theorem ownPostShown_reached : Run (Untapped () (.post 0 0)) emptyWorld ownPostShown := by
  unfold ownPostShown
  iterate 5
    refine Policy.run_perform (fun _ _ h => untapped_smooth h)
      (by rintro _ ⟨rfl, rfl⟩; simp [Action.Taps]) ?_
  exact .refl

theorem display_bind_ownPost :
    (Cell.post 0 0).display ((Cell.post 0 0).bind 0 (ownPostShown.devices ()).loc) =
      (Cell.post 0 0).display (ownPostShown.devices ()).loc :=
  display_bind_of_run ownPostShown_reached rfl

/-- Alice likes her post, and the like is carried out. -/
def ownPostLiked : World village Unit := smooth.perform () (.tapLike 0 0) 100 ownPostShown

/-- The list still has the post as it was before the like. -/
theorem display_bind_liked :
    Run (fun _ _ => True) emptyWorld ownPostLiked ∧
    (ownPostLiked.devices ()).idle = true ∧
    (Cell.post 0 0).row (ownPostLiked.devices ()).loc = some 0 ∧
    (Cell.post 0 0).display (ownPostLiked.devices ()).loc = some (.post true 1) ∧
    (Cell.post 0 0).display ((Cell.post 0 0).bind 0 (ownPostLiked.devices ()).loc) =
      some (.post false 0) := by
  refine ⟨?_, by decide, by decide, by decide, by decide⟩
  exact Policy.run_perform (fun _ _ _ => trivial) trivial
    (ownPostShown_reached.mono fun _ _ _ => trivial)

end DogVillage
