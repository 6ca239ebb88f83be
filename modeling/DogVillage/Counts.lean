import DogVillage.Rebinding
import DogVillage.LikeBounds

/-!
# Where counts of likes come from

A like writes one more than the count its cell shows. That count was read
from the post the cell shows, or computed by a like or unlike of that very
post, as long as every completion finds its cell still on the post it was
made for. A completion that finds another post there gives that post a
count of its own.
-/

namespace DogVillage

open Async

section

variable {D : Type}

/-- A document of the post `q` was answered with `m` likes. -/
inductive ReadIn (log : Log D) (q : DocId) (m : Int) : Prop
  | one {x data} (hx : x ∈ log)
      (ho : x.obs = .answered (.getDocument ⟨.posts, q⟩) (some (some data)))
      (h : Dictionary.int data "likes" = m)
  | listed {x} {query : Query Collection Value} {documents : List (DocId × Dictionary)} {data}
      (hx : x ∈ log) (ho : x.obs = .answered (.getDocuments query) (some documents))
      (hq : query.collection = .posts) (hmem : (q, data) ∈ documents)
      (h : Dictionary.int data "likes" = m)

/-- The count `m` was read from the post `q`, or computed for it by a like
or unlike of `q`. -/
def Counted (log : Log D) (q : DocId) (m : Int) : Prop :=
  ReadIn log q m ∨ ∃ x ∈ log, x.obs = .acted ∧ x.tag.counts q m

/-- The step carries out the completion of a like or unlike of `post`: the
count `n` is put into cell `c` of feed `i`. -/
def Completes (d : D) (i c : Nat) (post : Post) (n : Int) (w : World village D)
    (e : Event village D) : Prop :=
  ∃ s v t next dev, e = .run d s v ∧
    (w.devices d).take s = some (⟨t, .modify (setLikes i c n) next⟩, dev) ∧ t.computes post n

/-- Completions find their cell on the post they were made for, or on none. -/
def InPlace (w : World village D) (e : Event village D) : Prop :=
  ∀ d i c post n, Completes d i c post n w e →
    ∀ q, Action.shownPost (w.devices d).loc i c = some q → q.postId = post.postId

section

variable {log log' : Log D} (h : log <:+ log')

include h

theorem ReadIn.mono {q : DocId} {m : Int} (hr : ReadIn log q m) : ReadIn log' q m := by
  cases hr with
  | one hx ho hm => exact .one (h.subset hx) ho hm
  | listed hx ho hq hmem hm => exact .listed (h.subset hx) ho hq hmem hm

theorem Counted.mono {q : DocId} {m : Int} (hc : Counted log q m) : Counted log' q m := by
  rcases hc with hr | ⟨x, hx, hc⟩
  · exact Or.inl (hr.mono h)
  · exact Or.inr ⟨x, h.subset hx, hc⟩

end

/-! ## One change -/

/-- Where the post a cell shows after a change comes from: the cell itself,
the lists of a feed, or a completed like or unlike. -/
inductive ShownFrom (t : Call) (f : App → App) (app : App) (i c : Nat) (q : Post) : Prop
  | cell {q₀} (h : Action.shownPost app i c = some q₀) (hid : q.postId = q₀.postId)
      (hlikes : q.likes = q₀.likes)
  | list {feed} (h : feed ∈ app.feeds) (hq : feed.post = some q ∨ q ∈ feed.posts)
  | counted {post n q₀} (hf : f = setLikes i c n) (hop : t.computes post n)
      (h : Action.shownPost app i c = some q₀) (hid : q.postId = q₀.postId) (hlikes : q.likes = n)

theorem shownFrom {taps : Cell → Prop} {t : Call} {f : App → App} {app : App} {i c : Nat} {q : Post}
    (hf : FeedsChange taps t f) (h : Action.shownPost (f app) i c = some q) :
    ShownFrom t f app i c q := by
  have same : Action.shownPost (f app) i c = Action.shownPost app i c →
      ShownFrom t f app i c q := fun hsame => .cell (hsame.symm.trans h) rfl rfl
  cases hf with
  | keep hkeep => exact same (by simp only [Action.shownPost, hkeep])
  | push hpush hcells => exact same (shownPost_push hpush hcells)
  | lists hlists hcells => exact same (shownPost_lists hlists hcells)
  | @bind j row c' hbind =>
      subst hbind
      by_cases hj : j = i ∧ c' = c
      · obtain ⟨rfl, rfl⟩ := hj
        rw [shownPost_bind] at h
        rcases Option.or_eq_some_iff.mp h with h | ⟨-, h⟩
        · obtain ⟨feed, hfeed, hrow⟩ := Option.bind_eq_some_iff.mp h
          refine .list (List.mem_of_getElem? hfeed) ?_
          rcases Option.or_eq_some_iff.mp hrow with hrow | ⟨-, hrow⟩
          · exact Or.inl hrow
          · exact Or.inr (List.mem_of_getElem? hrow)
        · exact .cell h rfl rfl
      · exact same (shownPost_bind_ne fun hi hc => hj ⟨hi, hc.symm⟩)
  | @toggle j c' _ htoggle =>
      subst htoggle
      by_cases hj : j = i ∧ c' = c
      · obtain ⟨rfl, rfl⟩ := hj
        rw [shownPost_toggled] at h
        obtain ⟨q₀, h₀, rfl⟩ := Option.map_eq_some_iff.mp h
        exact .cell h₀ rfl rfl
      · exact same (shownPost_setCell_ne fun hi hc => hj ⟨hi, hc.symm⟩)
  | @count j c' _ _ hcount _ hop =>
      subst hcount
      by_cases hj : j = i ∧ c' = c
      · obtain ⟨rfl, rfl⟩ := hj
        rw [shownPost_setLikes] at h
        obtain ⟨q₀, h₀, rfl⟩ := Option.map_eq_some_iff.mp h
        exact .counted rfl hop h₀ rfl rfl
      · exact same (shownPost_setCell_ne fun hi hc => hj ⟨hi, hc.symm⟩)

end

/-! ## Every run -/

section

variable {D : Type} [DecidableEq D] {d : D} {w w' : World village D} {e : Event village D}

/-- Whatever is outstanding changes the lists only to what has been read by
then; that holds of every larger notion of "read". -/
def ListsRead (w : World village D) : Prop :=
  ∀ Read : DocId → Int → Prop, (∀ q m, ReadIn w.log q m → Read q m) →
    w.Under (Lists Read) (AnswersRead Read) (Changes Read fun _ => True)

omit [DecidableEq D] in
theorem listsRead_emptyWorld : ListsRead (emptyWorld : World village D) := by
  refine fun Read _ d => ⟨⟨?_, ?_, ?_, ?_⟩, .of_idle rfl rfl⟩ <;> exact fun _ h => by cases h

omit [DecidableEq D] in
/-- An answer that is in the log was read. -/
theorem answersRead {t : Call} {q : Ask} {a : q.Ans} {Read : DocId → Int → Prop} {log : Log D}
    (hread : ∀ q m, ReadIn log q m → Read q m) (hx : ⟨d, t, .answered q a⟩ ∈ log) :
    AnswersRead Read q a := by
  cases q with
  | getDocument r =>
      obtain ⟨k, id⟩ := r
      rintro rfl data rfl
      exact hread _ _ (.one hx rfl rfl)
  | getDocuments query =>
      rintro hq documents rfl x hmem
      exact hread _ _ (.listed hx rfl hq hmem rfl)
  | _ => trivial

theorem ListsRead.step (h : ListsRead w) (hs : Stepped w e w') :
    ListsRead w' ∧ ∀ d, LocStep (Changes (ReadIn w'.log) fun _ => True) w w' e d := by
  have key := fun Read (hread : ∀ q m, ReadIn w'.log q m → Read q m) =>
    World.Under.step (fun _ => Changes.preserves)
      (h Read fun q m hr => hread q m (hr.mono hs.log)) hs
      (fun d a _ hl => kind_action (fun _ _ => trivial) hl)
      fun d t q a srv hans => answersRead (d := d) (t := t) hread
        ((hans.step hs).1 ▸ List.mem_cons_self)
  exact ⟨fun Read hread => (key Read hread).1, (key _ fun _ _ hr => hr).2.2⟩

/-- Counts in cells, and those likes under way were made with, were read
from or computed for the post they belong to. -/
structure CountsOwn (w : World village D) : Prop where
  lists : ListsRead w
  shown : ∀ d i c q, Action.shownPost (w.devices d).loc i c = some q →
    Counted w.log q.postId q.likes
  captured : ∀ d t post, w.Active d t → t.op = .like post ∨ t.op = .unlike post →
    Counted w.log post.postId post.likes
  acted : ∀ d t, w.Active d t → ∃ x ∈ w.log, x.obs = .acted ∧ x.tag = t

omit [DecidableEq D] in
theorem countsOwn_emptyWorld : CountsOwn (emptyWorld : World village D) where
  lists := listsRead_emptyWorld
  shown _ _ _ _ h := by cases h
  captured _ _ _ h := absurd h not_active_emptyWorld
  acted _ _ h := absurd h not_active_emptyWorld

omit [DecidableEq D] in
theorem active_of_take {s : Slot} {t : Call} {c : Block} {dev : Device village}
    (h : (w.devices d).take s = some (⟨t, c⟩, dev)) : w.Active d t :=
  Device.mem_tags.mpr (Or.inl ⟨_, (Device.take_jobs h).symm.subset List.mem_cons_self, rfl⟩)

theorem CountsOwn.step (h : CountsOwn w) (hok : InPlace w e) (hs : Stepped w e w') :
    CountsOwn w' where
  lists := (h.lists.step hs).1
  shown d i c q hq := by
    cases (h.lists.step hs).2 d with
    | same hloc =>
        rw [hloc] at hq
        exact (h.shown d i c q hq).mono hs.log
    | @changed s v t f n dev he htake hf hloc =>
        rw [hloc] at hq
        have hlists := ((h.lists (ReadIn w'.log) fun _ _ hr => hr.mono hs.log) d).1
        cases shownFrom (hf f rfl).feeds hq with
        | cell h₀ hid hlikes => rw [hid, hlikes]; exact (h.shown d i c _ h₀).mono hs.log
        | list hfeed hmem =>
            rcases hmem with hmem | hmem
            · exact Or.inl (hlists.post _ hfeed q hmem)
            · exact Or.inl (hlists.posts _ hfeed q hmem)
        | @counted post m q₀ hset hop h₀ hid hlikes =>
            subst hset
            have hplace := hok d i c post m ⟨_, _, _, _, _, he, htake, hop⟩ q₀ h₀
            obtain ⟨x, hx, hacted, rfl⟩ := h.acted d t (active_of_take htake)
            rw [hid, hlikes, hplace]
            exact Or.inr ⟨x, hs.log.subset hx, hacted, post, rfl, hop⟩
  captured d t post hact hop := by
    rcases active_of_step hs hact with hact | ⟨a, -, rfl⟩
    · exact (h.captured d t post hact hop).mono hs.log
    · obtain ⟨i, c, -, hshown⟩ := Action.op_eq_like hop
      exact (h.shown d i c post hshown).mono hs.log
  acted d t hact := by
    rcases active_of_step hs hact with hact | ⟨a, he, rfl⟩
    · obtain ⟨x, hx, ho⟩ := h.acted d t hact
      exact ⟨x, hs.log.subset hx, ho⟩
    · subst he
      cases hs
      exact ⟨_, List.mem_cons_self, rfl, rfl⟩

/-- Every update of a post's count in the log is one more or one less than a
count that was read from or computed for that post by then. -/
def WritesOwn (log : Log D) : Prop :=
  ∀ l x l', log = l ++ x :: l' → ∀ q data r, x.obs = .wrote (.updateData ⟨.posts, q⟩ data) r →
    ∃ m n, data = [("likes", .int n)] ∧ (n = m + 1 ∨ n = m - 1) ∧ Counted l' q m

omit [DecidableEq D] in
theorem WritesOwn.cons {log : Log D} {x : Entry village D} (h : WritesOwn log)
    (hx : ∀ q data r, x.obs = .wrote (.updateData ⟨.posts, q⟩ data) r →
      ∃ m n, data = [("likes", .int n)] ∧ (n = m + 1 ∨ n = m - 1) ∧ Counted log q m) :
    WritesOwn (x :: log) := by
  intro l y l' hl
  cases l with
  | nil =>
      obtain ⟨rfl, rfl⟩ := List.cons.inj hl
      exact hx
  | cons z l => exact h l y l' (List.cons.inj hl).2

theorem CountsOwn.writes_step (h : CountsOwn w) (hsound : Sound False w) (hw : WritesOwn w.log)
    (hs : Stepped w e w') : WritesOwn w'.log := by
  cases hs.logs with
  | acted he hlog => rw [hlog]; exact hw.cons fun q data r ho => by cases ho
  | answered hans hlog => rw [hlog]; exact hw.cons fun q data r ho => by cases ho
  | @wrote d fail m ms he hm hlog =>
      rw [hlog]
      refine hw.cons fun q data r ho => ?_
      have hmem : m ∈ (w.devices d).writes := by rw [hm]; exact List.mem_cons_self
      have hok := ((hsound.code.held d).writes m hmem).1
      rw [(Obs.wrote.inj ho).1] at hok
      obtain ⟨n, rfl, -, post, rfl, hop⟩ := hok
      refine ⟨post.likes, n, rfl, hop.imp And.right And.right, ?_⟩
      refine h.captured d m.tag post (Device.mem_tags.mpr (Or.inr (Or.inl ⟨m, hmem, rfl⟩))) ?_
      exact hop.imp And.left And.left
  | @own l hlog hl =>
      rw [hlog]
      clear hlog
      induction l with
      | nil => exact hw
      | cons x l ih =>
          refine (ih fun y hy => hl y (List.mem_cons_of_mem _ hy)).cons fun q data r ho => ?_
          have := hl x List.mem_cons_self
          rw [ho] at this
          cases this

/-- A completion in place changes no other post's copy. -/
theorem shownPost_completes {i c j c' : Nat} {post q : Post} {n : Int} (hok : InPlace w e)
    (hc : Completes d i c post n w e) (hs : Stepped w e w')
    (hq : Action.shownPost (w.devices d).loc j c' = some q) (hne : q.postId ≠ post.postId) :
    Action.shownPost (w'.devices d).loc j c' = some q := by
  have hplace := hok d i c post n hc
  obtain ⟨s, v, t, next, dev, rfl, htake, -⟩ := hc
  have hloc : (w'.devices d).loc = setLikes i c n (w.devices d).loc := by
    cases hs with
    | finish htake' => rw [htake] at htake'; cases htake'
    | run htake' hexec =>
        rw [htake] at htake'
        cases htake'
        cases hexec
        rw [World.put_device, Device.back_loc]
        exact congrArg (setLikes i c n) (Device.take_loc htake)
  rw [hloc, ← hq]
  refine shownPost_setCell_ne fun hi hcc => hne ?_
  subst hi hcc
  exact hplace q hq

/-- As long as completions find their cell in place: no completion changes
another post's copy, and every count written to a post comes from a count
that was read from, or computed for, that post. -/
theorem counts_of_run (hrun : Run InPlace emptyWorld w) :
    (∀ d i c post n e w', InPlace w e → Completes d i c post n w e → step w e = some w' →
      ∀ j c' q, Action.shownPost (w.devices d).loc j c' = some q → q.postId ≠ post.postId →
        Action.shownPost (w'.devices d).loc j c' = some q) ∧
    WritesOwn w.log := by
  refine ⟨fun d i c post n e w' hok hc hstep j c' q hq hne =>
    shownPost_completes hok hc (stepped_of_step hstep) hq hne, ?_⟩
  have hall : CountsOwn w ∧ WritesOwn w.log := by
    induction hrun with
    | refl =>
        refine ⟨countsOwn_emptyWorld, fun l x l' hl => ?_⟩
        cases l <;> cases hl
    | step hrun hok hstep ih =>
        have hs := stepped_of_step hstep
        have hsound := sound_of_run hrun
        exact ⟨ih.1.step hok hs, ih.1.writes_step hsound ih.2 hs⟩
  exact hall.2

end

/-! ## Runs -/

/-- A memory whose one cell shows a post with no likes. -/
def shownProbe : App :=
  { feeds := [{ cells := Function.update (fun _ => none) 0 (some (Post.init "" [] ⟨0, 0⟩)) }] }

/-- Where a like or unlike changes the memory, it changes cell 0 of feed 0,
and the cell shows its post. -/
def inPlace (w : World village Unit) : Event village Unit → Bool
  | .run d s _ =>
      match (w.devices d).take s with
      | some (⟨⟨_, .like post⟩, .modify f _⟩, _) | some (⟨⟨_, .unlike post⟩, .modify f _⟩, _) =>
          Action.shownPost (f shownProbe) 0 0 != Action.shownPost shownProbe 0 0 &&
            (Action.shownPost (w.devices d).loc 0 0).all (·.postId == post.postId)
      | _ => true
  | _ => true

theorem inPlace_of_test {w : World village Unit} {e : Event village Unit}
    (h : inPlace w e = true) : InPlace w e := by
  rintro d i c post n ⟨s, v, t, next, dev, rfl, htake, hop⟩ q hq
  obtain ⟨actor, op⟩ := t
  have hop' : op = .like post ∨ op = .unlike post := hop.imp And.left And.left
  have htest : (Action.shownPost (setLikes i c n shownProbe) 0 0 !=
      Action.shownPost shownProbe 0 0) = true ∧
      (Action.shownPost (w.devices d).loc 0 0).all (·.postId == post.postId) = true := by
    rcases hop' with rfl | rfl <;> simpa only [inPlace, htake, Bool.and_eq_true] using h
  have hcell : i = 0 ∧ c = 0 := by
    by_contra hne
    have hsame : Action.shownPost (setLikes i c n shownProbe) 0 0 =
        Action.shownPost shownProbe 0 0 :=
      shownPost_setCell_ne fun hi hc => hne ⟨hi, hc.symm⟩
    rw [hsame] at htest
    simp at htest
  obtain ⟨rfl, rfl⟩ := hcell
  rw [hq] at htest
  simpa using htest.2

/-- Alice likes her own post. -/
def ownPostLikedOnce : World village Unit := smooth.perform () (.tapLike 0 0) 100 ownPost

theorem counts_ownPostLikedOnce :
    (∀ d i c post n e w', InPlace ownPostLikedOnce e → Completes d i c post n ownPostLikedOnce e →
      step ownPostLikedOnce e = some w' →
      ∀ j c' q, Action.shownPost (ownPostLikedOnce.devices d).loc j c' = some q →
        q.postId ≠ post.postId → Action.shownPost (w'.devices d).loc j c' = some q) ∧
    WritesOwn ownPostLikedOnce.log := by
  refine counts_of_run ?_
  unfold ownPostLikedOnce ownPost
  iterate 6
    refine Policy.run_checks (fun w e (h : inPlace w e = true) => inPlace_of_test h) (by decide) ?_
  exact .refl

/-- Alice likes the first of her two posts, and before the like has gone
through the cell is bound to the second. -/
def rebound : World village Unit :=
  emptyWorld
    |> smooth.perform () (.signUp "alice@dog.kr" "secret" "Alice" "alice" ⟨some []⟩) 100
    |> smooth.perform () (.didFinishPicking ⟨some []⟩) 100
    |> smooth.perform () (.tapDone 0 "walk") 100
    |> smooth.perform () (.tapDone 0 "bath") 100
    |> smooth.perform () (.feedDidLoad 0) 100
    |> smooth.perform () (.feedCell 0 0 0) 100
    |> smooth.perform () (.tapLike 0 0) 6
    |> smooth.perform () (.feedCell 0 1 0) 11

/-- The like of the first post is completed. -/
def miscounted : World village Unit := smooth.drain () 1 rebound

/-- Alice likes the second post too. -/
def misliked : World village Unit := smooth.perform () (.tapLike 0 0) 100 (smooth.drain () 1 miscounted)

/-- The first of the two posts. -/
def bath : Post :=
  { walk with caption := "bath", postId := "n6", imageUrl := "/profile_image/n5", timestamp := ⟨6, 0⟩ }

/-- The completion counts a like of the first post for the second, and the
next like of the second writes the wrong count. -/
theorem miscounted_from_rebound :
    Run (fun _ _ => True) emptyWorld rebound ∧
    Completes () 0 0 bath 1 rebound (.run () .main ⟨"", ⟨0, 0⟩⟩) ∧
    step rebound (.run () .main ⟨"", ⟨0, 0⟩⟩) = some miscounted ∧
    Action.shownPost (rebound.devices ()).loc 0 0 = some walk ∧ walk.postId ≠ bath.postId ∧
    Action.shownPost (miscounted.devices ()).loc 0 0 = some { walk with likes := 1 } ∧
    Run (fun _ _ => True) miscounted misliked ∧
    (misliked.server.docs.get ⟨.posts, "n3"⟩).map (Dictionary.int · "likes") = some 2 ∧
    misliked.server.docs.count (.postLikes "n3") = 1 := by
  refine ⟨?_, ⟨.main, _, ⟨some "n1", .like bath⟩, _, _, rfl, rfl, Or.inl ⟨rfl, rfl⟩⟩, rfl, rfl,
    by decide, rfl, ?_, by decide, by decide⟩
  · unfold rebound
    iterate 8
      refine Policy.run_perform (fun _ _ _ => trivial) trivial ?_
    exact .refl
  · exact Policy.run_perform (fun _ _ _ => trivial) trivial
      (Policy.run_drain (fun _ _ _ => trivial) .refl)

end DogVillage
