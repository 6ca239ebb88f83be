import DogVillage.Services
import Mathlib.Data.List.Chain

/-!
# The list of comments

`CommentService.fetchComments` attaches a listener to the comments of a
post, newest first. The listener never reads the result it is given: it
appends to one array, captured by every call, the documents the snapshot
reports as added. The array is the result as long as what is added stands
below what was there, and not otherwise.
-/

namespace DogVillage

open Async

namespace CommentService

abbrev Result := List (DocId × Dictionary)

/-- `posts/postID/comments`, `order(by: "timestamp", descending: true)` -/
def commentsQuery (postID : DocId) : Query Collection Value :=
  { collection := .comments postID, orderBy := some "timestamp" }

inductive ChangeType
  | added
  | modified
  | removed
deriving DecidableEq, Repr

structure DocumentChange where
  type : ChangeType
  document : DocId × Dictionary
deriving Repr

/-- The documents of a result that the one before did not have, in its order. -/
def added (before after : Result) : Result :=
  after.filter fun x => before.all fun y => y.1 != x.1

/-- `snapshot.documentChanges`: a result's difference from the one before. -/
def documentChanges (before after : Result) : List DocumentChange :=
  (added after before).map (⟨.removed, ·⟩) ++ (added before after).map (⟨.added, ·⟩) ++
    (after.filter fun x => before.any fun y => y.1 == x.1 && y.2 != x.2).map (⟨.modified, ·⟩)

/-- The body of the listener's `forEach`, over the captured `comments`. -/
def append (now : Timestamp) (comments : List Comment) (change : DocumentChange) : List Comment :=
  match change.type with
  | .added => comments ++ [Comment.init change.document.2 now]
  | _ => comments

/-- What goes on at a listener: a snapshot arrives, with a result or an
error, or a block it put on the main thread's queue runs the completion. -/
inductive Event
  | snapshot (result : Option Result) (now : Timestamp)
  | completion

structure Listener where
  /-- The query's result as of the last snapshot. -/
  result : Result := []
  /-- The captured array. -/
  comments : List Comment := []

def Listener.step (l : Listener) : Event → Listener
  | .snapshot (some result) now =>
      ⟨result, (documentChanges l.result result).foldl (append now) l.comments⟩
  | .snapshot none _ => l
  | .completion => l

/-- The listener whenever the completion runs: it hands over `comments`. -/
def deliveries (l : Listener) : List Event → List Listener
  | [] => []
  | .completion :: events => l :: deliveries l events
  | e :: events => deliveries (l.step e) events

/-- The results of the snapshots. -/
def results : List Event → List Result
  | [] => []
  | .snapshot (some result) _ :: events => result :: results events
  | _ :: events => results events

/-! ## One snapshot -/

/-- The documents of comments, as `uploadComment` writes them. -/
def Uploaded (result : Result) : Prop :=
  ∀ x ∈ result, ∃ comment user now, x.2 = commentData comment user now

/-- The comments of a result. -/
def comments (result : Result) : List Comment := result.map fun x => Comment.init x.2 ⟨0, 0⟩

theorem init_commentData (comment : String) (user : User) (t now : Timestamp) :
    Comment.init (commentData comment user t) now =
      ⟨user.uid, user.username, user.profileImageUrl, t, comment⟩ := rfl

theorem map_init {result : Result} (h : Uploaded result) (now : Timestamp) :
    (result.map fun x => Comment.init x.2 now) = comments result := by
  refine List.map_congr_left fun x hx => ?_
  obtain ⟨comment, user, t, hdata⟩ := h x hx
  rw [hdata, init_commentData, init_commentData]

theorem Uploaded.added {before after : Result} (h : Uploaded after) :
    Uploaded (added before after) := fun x hx => h x (List.mem_of_mem_filter hx)

theorem foldl_append_skip {now : Timestamp} {changes : List DocumentChange}
    (h : ∀ change ∈ changes, change.type ≠ .added) (l : List Comment) :
    changes.foldl (append now) l = l := by
  induction changes generalizing l with
  | nil => rfl
  | cons change changes ih =>
      have hskip : append now l change = l := by
        have hne := h change List.mem_cons_self
        unfold append
        split
        · next ht => exact absurd ht hne
        · rfl
      rw [List.foldl_cons, hskip]
      exact ih (fun c hc => h c (List.mem_cons_of_mem _ hc)) l

theorem foldl_append_added {now : Timestamp} (documents : Result) (l : List Comment) :
    (documents.map (⟨.added, ·⟩ : _ → DocumentChange)).foldl (append now) l =
      l ++ documents.map fun x => Comment.init x.2 now := by
  induction documents generalizing l with
  | nil => simp
  | cons x documents ih =>
      rw [List.map_cons, List.foldl_cons, ih]
      simp [append]

/-- A snapshot appends the comments it adds. -/
theorem step_snapshot {l : Listener} {result : Result} {now : Timestamp} (h : Uploaded result) :
    l.step (.snapshot (some result) now) =
      ⟨result, l.comments ++ comments (added l.result result)⟩ := by
  have hskip : ∀ {t : ChangeType} {documents : Result}, t ≠ .added →
      ∀ c ∈ documents.map (⟨t, ·⟩ : _ → DocumentChange), c.type ≠ .added := by
    rintro t documents ht c hc
    obtain ⟨x, -, rfl⟩ := List.mem_map.mp hc
    exact ht
  simp only [Listener.step, documentChanges, List.foldl_append]
  rw [foldl_append_skip (hskip (by simp)), foldl_append_added, foldl_append_skip (hskip (by simp)),
    map_init h.added]

/-! ## All snapshots -/

/-- Every result is the one before, the comments it adds below. -/
def AddsBelow : Result → List Result → Prop
  | _, [] => True
  | before, result :: rest =>
      comments result = comments before ++ comments (added before result) ∧ AddsBelow result rest

theorem deliveries_of_addsBelow : ∀ (events : List Event) (l : Listener),
    l.comments = comments l.result → (∀ r ∈ results events, Uploaded r) →
    AddsBelow l.result (results events) →
    ∀ x ∈ deliveries l events, x.comments = comments x.result
  | [], _, _, _, _ => fun x hx => by cases hx
  | .completion :: events, l, hl, hup, hadd => by
      intro x hx
      rcases List.mem_cons.mp hx with rfl | hx
      · exact hl
      · exact deliveries_of_addsBelow events l hl hup hadd x hx
  | .snapshot none _ :: events, l, hl, hup, hadd => deliveries_of_addsBelow events l hl hup hadd
  | .snapshot (some result) now :: events, l, hl, hup, hadd => by
      have hstep : l.step (.snapshot (some result) now) = _ :=
        step_snapshot (hup result List.mem_cons_self)
      refine deliveries_of_addsBelow events (l.step (.snapshot (some result) now)) ?_
        (fun r hr => hup r (List.mem_cons_of_mem _ hr)) ?_
      · rw [hstep, hadd.1, hl]
      · rw [hstep]
        exact hadd.2

theorem exists_results : ∀ rs : List Result, ∃ events, results events = rs
  | [] => ⟨[], rfl⟩
  | r :: rs => by
      obtain ⟨events, he⟩ := exists_results rs
      exact ⟨.snapshot (some r) ⟨0, 0⟩ :: events, by simp only [results, he]⟩

theorem addsBelow_of_deliveries : ∀ (rs : List Result) (l : Listener),
    l.comments = comments l.result → (∀ r ∈ rs, Uploaded r) →
    (∀ events, results events = rs → ∀ x ∈ deliveries l events, x.comments = comments x.result) →
    AddsBelow l.result rs
  | [], _, _, _, _ => trivial
  | result :: rs, l, hl, hup, h => by
      have hstep : l.step (.snapshot (some result) ⟨0, 0⟩) = _ :=
        step_snapshot (hup result List.mem_cons_self)
      -- the completion runs right after the snapshot
      have hnow : ∀ events, results events = rs → ∀ x ∈ deliveries l
          (.snapshot (some result) ⟨0, 0⟩ :: .completion :: events),
          x.comments = comments x.result := fun events he => h _ (by simp only [results, he])
      have hcur : (l.step (.snapshot (some result) ⟨0, 0⟩)).comments = comments result := by
        obtain ⟨events, he⟩ := exists_results rs
        have hx := hnow events he _ List.mem_cons_self
        rwa [hstep] at hx ⊢
      constructor
      · rw [hstep] at hcur
        rw [← hl]
        exact hcur.symm
      · have hrest := addsBelow_of_deliveries rs (l.step (.snapshot (some result) ⟨0, 0⟩))
          (by rw [hcur, hstep]) (fun r hr => hup r (List.mem_cons_of_mem _ hr))
          fun events he x hx => hnow events he x (List.mem_cons_of_mem _ hx)
        rwa [hstep] at hrest

/-! ## The query -/

/-- The comments of a post are as `uploadComment` writes them. -/
def Commented (postID : DocId) (store : Documents Collection Value) : Prop :=
  ∀ id data, store.get ⟨.comments postID, id⟩ = some data →
    ∃ comment user now, data = commentData comment user now

/-- The results of the query while `stores` follow one another. -/
def queried (postID : DocId) (stores : List (Documents Collection Value)) : List Result :=
  stores.map (·.select (commentsQuery postID))

theorem uploaded_queried {postID : DocId} {stores : List (Documents Collection Value)}
    (h : ∀ s ∈ stores, Commented postID s) : ∀ r ∈ queried postID stores, Uploaded r := by
  intro r hr
  obtain ⟨s, hs, rfl⟩ := List.mem_map.mp hr
  exact fun x hx => h s hs x.1 x.2 (Documents.mem_select.mp hx).1

/-- Whenever the snapshots' completions run, they hand over the query's
current result, if and only if every result adds its comments below those
that were there. -/
theorem fetchComments_current_iff (postID : DocId) (stores : List (Documents Collection Value))
    (hstores : ∀ s ∈ stores, Commented postID s) :
    (∀ events, results events = queried postID stores →
      ∀ x ∈ deliveries {} events, x.comments = comments x.result) ↔
      AddsBelow [] (queried postID stores) :=
  have hup := uploaded_queried hstores
  ⟨addsBelow_of_deliveries _ {} rfl hup, fun h events he =>
    deliveries_of_addsBelow events {} rfl (he ▸ hup) (he ▸ h)⟩

/-! ## Two comments -/

def dog : User := User.init [("uid", .string "d"), ("username", .string "dog")]

/-- A comment on `p` stored at time `t`. -/
def stored (id : DocId) (t : Int) (store : Documents Collection Value) :
    Documents Collection Value :=
  store.set ⟨.comments "p", id⟩ (commentData "woof" dog ⟨t, 0⟩)

theorem commented_empty : Commented "p" .empty := by
  intro id data h
  cases h

theorem Commented.stored {store : Documents Collection Value} (h : Commented "p" store)
    (id : DocId) (t : Int) : Commented "p" (stored id t store) := by
  intro id' data hd
  rw [CommentService.stored, Documents.get_set] at hd
  split at hd
  · exact ⟨"woof", dog, ⟨t, 0⟩, (Option.some.inj hd).symm⟩
  · exact h id' data hd

/-- One comment, and then a second one stamped `t`. -/
def twoStores (t : Int) : List (Documents Collection Value) :=
  [stored "a" 2 .empty, stored "b" t (stored "a" 2 .empty)]

theorem commented_twoStores (t : Int) : ∀ s ∈ twoStores t, Commented "p" s := by
  have hone := commented_empty.stored "a" 2
  intro s hs
  simp only [twoStores, List.mem_cons, List.not_mem_nil, or_false] at hs
  rcases hs with rfl | rfl
  · exact hone
  · exact hone.stored "b" t

/-- An older comment, arriving later, is handed over in its place. -/
theorem fetchComments_current_older : (∀ s ∈ twoStores 1, Commented "p" s) ∧
    ∀ events, results events = queried "p" (twoStores 1) →
      ∀ x ∈ deliveries {} events, x.comments = comments x.result :=
  ⟨commented_twoStores 1,
    (fetchComments_current_iff "p" (twoStores 1) (commented_twoStores 1)).mpr
      ⟨by decide, by decide, trivial⟩⟩

/-- A newer comment is handed over last. -/
theorem newer_comment_last : ∃ postID stores events,
    (∀ s ∈ stores, Commented postID s) ∧
      stores.IsChain (fun s s' => ∀ r data, s.get r = some data → s'.get r = some data) ∧
      results events = queried postID stores ∧
      ∃ x ∈ deliveries {} events, x.comments ≠ comments x.result := by
  refine ⟨"p", twoStores 3,
    (queried "p" (twoStores 3)).flatMap fun r => [.snapshot (some r) ⟨0, 0⟩, .completion],
    commented_twoStores 3, ?_, rfl, ?_⟩
  · refine List.isChain_pair.mpr fun r data h => ?_
    rw [stored, Documents.get_set]
    split
    · next hr => subst hr; cases h
    · exact h
  · exact ⟨_, List.mem_cons_of_mem _ List.mem_cons_self, by decide⟩

end CommentService

end DogVillage
