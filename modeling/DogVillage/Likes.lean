import DogVillage.Async.Ledger
import DogVillage.Creations
import DogVillage.OneCell

/-!
# Likes from many devices

A like is recorded three times: in the count `posts/p` keeps, in
`posts/p/post-likes` and in `users/u/user-likes`. A tap writes the count
as its cell's copy of the post has it, so the three agree as long as every
tap finds its copy up to date and nothing under way that will change it:
then at most one write of each record is outstanding at a time, and it
writes what the likes made so far add up to.
-/

namespace DogVillage

open Async

/-- The documents that record `u`'s like of `p`. -/
def likeRecords (p : DocId) (u : Uid) : List (Ref Collection) :=
  [⟨.posts, p⟩, ⟨.postLikes p, u⟩, ⟨.userLikes u, p⟩]

/-- The write changes one of them. That of an upload does not: its post is new. -/
def ChangesLike (p : DocId) (u : Uid) (wr : Write) : Prop :=
  wr.ref ∈ likeRecords p u ∧ ∀ data, wr ≠ .setData ⟨.posts, p⟩ data

/-- The call of `likePost` or `unlikePost` a tap makes once its guards are
passed: the cell's copy of the post, and the account. -/
def likeCall (a : Action) (app : App) : Option (Post × Uid) :=
  match a.op app, app.currentUser with
  | .like post, some u => some (post, u)
  | .unlike post, some u => if post.likes > 0 then some (post, u) else none
  | _, _ => none

structure LikesAgree (srv : Server) (p : DocId) : Prop where
  count : ∀ data, srv.docs.get ⟨.posts, p⟩ = some data →
    Dictionary.int data "likes" = srv.docs.count (.postLikes p)
  members : ∀ u, srv.present ⟨.postLikes p, u⟩ = srv.present ⟨.userLikes u, p⟩

section

variable {D : Type}

/-- Nothing outstanding may still change a record of a like of `p`. -/
def LikesSettled (w : World village D) (p : DocId) : Prop :=
  ∀ d, (w.devices d).Writes fun wr : Write => ∀ u, ¬ ChangesLike p u wr

/-- The copy of the post has the count that is stored, and tells whether
`u` likes it; nothing outstanding may still change either. -/
structure UpToDate (w : World village D) (post : Post) (u : Uid) : Prop where
  settled : ∀ d, (w.devices d).Writes fun wr : Write => ¬ ChangesLike post.postId u wr
  count : ∃ data, w.server.docs.get ⟨.posts, post.postId⟩ = some data ∧
    Dictionary.int data "likes" = post.likes
  member : w.server.present ⟨.postLikes post.postId, u⟩ = post.didLike

/-- Likes of `p` are made from copies up to date, and their writes do not
fail; `p` is not removed and no account deleted. -/
structure Current (p : DocId) (w : World village D) (e : Event village D) : Prop where
  call : ∀ d a post u, e = .act d a → likeCall a (w.devices d).loc = some (post, u) →
    post.postId = p → UpToDate w post u
  written : ∀ d fail m ms u, e = .commit d fail → (w.devices d).writes = m :: ms →
    ChangesLike p u m.write → fail = none
  kept : ∀ d a, e = .act d a →
    a.op (w.devices d).loc ≠ .remove p ∧ a.op (w.devices d).loc ≠ .delete

end

/-! ## What a call writes -/

open Classical in
/-- The write itself, if it changes a record of a like of `p`. -/
noncomputable def likeMarks (p : DocId) (wr : Write) : Multiset Write :=
  if ∃ u, ChangesLike p u wr then {wr} else 0

/-- The writes of a call. -/
def callWrites (post : Post) (u : Uid) : Multiset Write :=
  {countWrite post.didLike post, markWrite post.didLike ⟨.postLikes post.postId, u⟩,
    markWrite post.didLike ⟨.userLikes u, post.postId⟩}

/-- Those of the call an action makes, if it is one on `p`. -/
def marksOf (p : DocId) (a : Action) (app : App) : Multiset Write :=
  match likeCall a app with
  | some (post, u) => if post.postId = p then callWrites post u else 0
  | none => 0

section

variable {p : DocId} {u : Uid} {wr : Write} {a : Action} {app : App}

theorem changesLike_ref (h : ChangesLike p u wr) :
    wr.ref = ⟨.posts, p⟩ ∨ wr.ref = ⟨.postLikes p, u⟩ ∨ wr.ref = ⟨.userLikes u, p⟩ := by
  simpa [likeRecords] using h.1

theorem likeMarks_pos (h : ChangesLike p u wr) : likeMarks p wr = {wr} := if_pos ⟨u, h⟩

theorem likeMarks_neg (h : ∀ u, ¬ ChangesLike p u wr) : likeMarks p wr = 0 :=
  if_neg fun ⟨u, hu⟩ => h u hu

@[simp] theorem ref_countWrite (gone : Bool) (post : Post) :
    (countWrite gone post).ref = ⟨.posts, post.postId⟩ := rfl

theorem changes_countWrite (gone : Bool) (post : Post) (u : Uid) :
    ChangesLike post.postId u (countWrite gone post) :=
  ⟨by simp [likeRecords, countWrite, DocWrite.ref], fun _ => by simp [countWrite]⟩

theorem changes_postLikes (gone : Bool) (p : DocId) (u : Uid) :
    ChangesLike p u (markWrite gone ⟨.postLikes p, u⟩) :=
  ⟨by simp [likeRecords], fun _ => by cases gone <;> simp [markWrite]⟩

theorem changes_userLikes (gone : Bool) (p : DocId) (u : Uid) :
    ChangesLike p u (markWrite gone ⟨.userLikes u, p⟩) :=
  ⟨by simp [likeRecords], fun _ => by cases gone <;> simp [markWrite]⟩

theorem mem_likeMarks {x : Write} : x ∈ likeMarks p wr ↔ x = wr ∧ ∃ u, ChangesLike p u wr := by
  by_cases h : ∃ u, ChangesLike p u wr
  · obtain ⟨u, hu⟩ := h
    rw [likeMarks_pos hu, Multiset.mem_singleton]
    exact (and_iff_left ⟨u, hu⟩).symm
  · rw [likeMarks_neg fun u hu => h ⟨u, hu⟩]
    simp [h]

/-- Writes to none of the records. -/
theorem likeMarks_of_ref (hposts : wr.ref ≠ ⟨.posts, p⟩)
    (h : ∀ u, wr.ref ≠ ⟨.postLikes p, u⟩ ∧ wr.ref ≠ ⟨.userLikes u, p⟩) : likeMarks p wr = 0 := by
  refine likeMarks_neg fun u hu => ?_
  rcases changesLike_ref hu with hr | hr | hr
  exacts [hposts hr, (h u).1 hr, (h u).2 hr]

theorem enters_of_touches {b : Block} {C : Collection → Prop} (h : Touches C b)
    (hC : ¬ C .posts ∧ ∀ u, ¬ C (.postLikes p) ∧ ¬ C (.userLikes u)) :
    b.Enters (likeMarks p) 0 := by
  refine Code.Writes.enters (h.mono fun wr hwr => likeMarks_of_ref ?_ fun u => ⟨?_, ?_⟩) <;>
    intro hr <;> rw [hr] at hwr
  exacts [hC.1 hwr, (hC.2 u).1 hwr, (hC.2 u).2 hwr]

theorem enters_tapWrites (p : DocId) (u : Uid) (post : Post) {completion : Completion}
    (h : ∀ error, Touches (fun c => ∃ v, c = .userNotifications v) (completion error)) :
    (tapWrites post.didLike post u completion).Enters (likeMarks p)
      (if post.postId = p then callWrites post u else 0) := by
  have hdone : ∀ error, (completion error).Enters (likeMarks p) 0 := fun error =>
    enters_of_touches (h error) (by simp)
  have hwrites : ∀ gone, (tapWrites gone post u completion).Enters (likeMarks p)
      (likeMarks p (countWrite gone post) +
        (likeMarks p (markWrite gone ⟨.postLikes post.postId, u⟩) +
          likeMarks p (markWrite gone ⟨.userLikes u, post.postId⟩))) := by
    intro gone
    cases gone <;>
      refine ⟨_, 0, ⟨0, _, fun _ => rfl, ⟨_, 0, fun _ => ⟨0, 0, hdone, rfl, rfl⟩, rfl, rfl⟩, rfl⟩,
        rfl, ?_⟩ <;>
      simp [countWrite, recount, markWrite]
  have hwrites := hwrites post.didLike
  split
  · next hp =>
      subst hp
      rwa [likeMarks_pos (u := u) (changes_countWrite _ _ _),
        likeMarks_pos (changes_postLikes _ _ _), likeMarks_pos (changes_userLikes _ _ _)] at hwrites
  · next hp =>
      rwa [likeMarks_of_ref (by simp [hp]) (by simp),
        likeMarks_of_ref (by simp) (by simp [hp]), likeMarks_of_ref (by simp) (by simp [hp])]
        at hwrites

theorem op_tapLike (i c : Nat) (app : App) :
    (∀ post, (Action.tapLike i c).op app = .like post → post.didLike = false) ∧
      ∀ post, (Action.tapLike i c).op app = .unlike post → post.didLike = true := by
  simp only [Action.op]
  split
  · split
    · next hl =>
        exact ⟨fun _ h => Op.noConfusion h, fun _ h => Op.unlike.inj h ▸ hl⟩
    · next hl =>
        exact ⟨fun _ h => Op.like.inj h ▸ Bool.not_eq_true _ ▸ hl, fun _ h => Op.noConfusion h⟩
  · exact ⟨fun _ h => Op.noConfusion h, fun _ h => Op.noConfusion h⟩

/-- The writes a tap on a like button comes to. -/
theorem enters_tapLike (i c : Nat) :
    ((Action.tapLike i c).block.start app).Enters (likeMarks p) (marksOf p (.tapLike i c) app) := by
  have htap := likeTap i c app
  have hop := op_tapLike i c app
  unfold marksOf likeCall
  generalize (Action.tapLike i c).op app = op at htap hop ⊢
  generalize (Action.tapLike i c).block.start app = b at htap ⊢
  cases htap with
  | none => exact rfl
  | @dropped _ post _ hcall hguard =>
      rcases hguard with huid | ⟨hlike, hpos⟩
      · rcases hcall with rfl | rfl <;> rw [huid] <;> exact rfl
      · rcases hcall with rfl | rfl
        · rw [hop.1 post rfl] at hlike
          cases hlike
        · cases app.currentUser with
          | none => exact rfl
          | some u => simp only [if_neg (not_lt.mpr hpos)]; exact rfl
  | @like post user uid _ _ huid hlike =>
      rw [huid]
      have hdone : ∀ error, Touches (fun c => ∃ v, c = .userNotifications v)
          (FeedController.onLike i c post user error) :=
        touches_onLike fun u => ⟨u, rfl⟩
      have h := enters_tapWrites p uid post hdone
      rw [tapWrites, hlike, if_neg Bool.false_ne_true] at h
      exact h
  | @unlike post user uid _ _ huid hlike hpos =>
      rw [huid]
      simp only [if_pos hpos]
      have hdone : ∀ error, Touches (fun c => ∃ v, c = .userNotifications v)
          (FeedController.onUnlike i c post error) :=
        touches_onUnlike
      have h := enters_tapWrites p uid post hdone
      rw [tapWrites, hlike, if_pos rfl] at h
      exact h

theorem marksOf_of_ne (h : ∀ i c, a ≠ .tapLike i c) : marksOf p a app = 0 := by
  have hs := a.starts app
  unfold marksOf likeCall
  generalize a.op app = op at hs ⊢
  cases hs with
  | like => exact absurd rfl (h _ _)
  | unlike => exact absurd rfl (h _ _)
  | _ => rfl

theorem enters_action (a : Action) (app : App) (hremove : a.op app ≠ .remove p)
    (hdelete : a.op app ≠ .delete) :
    (a.block.start app).Enters (likeMarks p) (marksOf p a app) := by
  cases a with
  | tapLike i c => exact enters_tapLike i c
  | tapDone i caption =>
      rw [marksOf_of_ne (by simp)]
      refine Code.Writes.enters ((writes_didTapDone i caption).start.mono fun wr hwr => ?_)
      cases hwr with
      | @post q data _ =>
          refine likeMarks_neg fun u hu => ?_
          rcases changesLike_ref hu with hr | hr | hr <;> cases hr
          exact hu.2 data rfl
      | feed => exact likeMarks_of_ref (by simp [DocWrite.ref]) (by simp [DocWrite.ref])
  | answerAlert k yes =>
      rw [marksOf_of_ne (by simp)]
      have htap := removeTap k yes app
      generalize (Action.answerAlert k yes).op app = op at htap hremove
      generalize (Action.answerAlert k yes).block.start app = b at htap ⊢
      cases htap with
      | none => exact rfl
      | no => exact rfl
      | kept => exact rfl
      | @removed post user _ _ _ =>
          have hp : post.postId ≠ p := fun h => hremove (by rw [h])
          refine ⟨0, 0, fun _ => rfl, rfl, ?_⟩
          rw [likeMarks_of_ref (by simp [DocWrite.ref, hp]) (by simp [DocWrite.ref])]
          rfl
  | deleteAccount => exact absurd rfl hdelete
  | _ =>
      rw [marksOf_of_ne (by simp)]
      exact enters_of_touches (touches_action _ app) ⟨id, fun u => ⟨id, id⟩⟩

end

/-! ## What the records come to -/

/-- The document is as the write leaves it. -/
def Held (srv : Server) : Write → Prop
  | .updateData r data => ∀ stored, srv.docs.get r = some stored →
      Dictionary.int stored "likes" = Dictionary.int data "likes"
  | .setData r _ => srv.present r = true
  | .delete r => srv.present r = false

/-- The last write of each record, when the accounts in `likers` like `p`. -/
inductive Settling (p : DocId) (likers : Finset Uid) : Write → Prop
  | count : Settling p likers (.updateData ⟨.posts, p⟩ [("likes", .int likers.card)])
  | member (u : Uid) : Settling p likers (markWrite (decide (u ∉ likers)) ⟨.postLikes p, u⟩)
  | recorded (u : Uid) : Settling p likers (markWrite (decide (u ∉ likers)) ⟨.userLikes u, p⟩)

/-- Those who like `p` once a call is carried out. -/
def likersAfter (post : Post) (u : Uid) (likers : Finset Uid) : Finset Uid :=
  if post.didLike then likers.erase u else insert u likers

section

variable {p : DocId} {u : Uid} {post : Post} {srv srv' : Server} {wr x : Write}
  {M : Multiset Write} {likers : Finset Uid}

theorem Held.congr (h : Held srv x) (hget : srv'.docs.get x.ref = srv.docs.get x.ref) :
    Held srv' x := by
  cases x with
  | updateData r data => exact fun stored hs => h stored (hget ▸ hs)
  | setData r data => exact (Server.present_congr hget).trans h
  | delete r => exact (Server.present_congr hget).trans h

theorem held_mark {gone : Bool} {r : Ref Collection} :
    Held srv (markWrite gone r) ↔ srv.present r = !gone := by
  cases gone <;> exact Iff.rfl

theorem held_written (hx : Settling p likers x)
    (hget : srv'.docs.get x.ref = Documents.written x (srv.docs.get x.ref)) : Held srv' x := by
  cases hx with
  | count =>
      intro stored hs
      obtain ⟨old, -, rfl⟩ := Option.map_eq_some_iff.mp (hget.symm.trans hs)
      rfl
  | member u | recorded u =>
      rw [ref_markWrite] at hget
      rw [held_mark, Server.present, hget, written_markWrite]
      cases decide (u ∉ likers) <;> rfl

theorem settling_ref (hx : Settling p likers x) : ∃ u, x.ref ∈ likeRecords p u := by
  cases hx with
  | count => exact ⟨p, by simp [likeRecords, DocWrite.ref]⟩
  | member u => exact ⟨u, by simp [likeRecords]⟩
  | recorded u => exact ⟨u, by simp [likeRecords]⟩

/-- A write that is carried out is no longer due. -/
theorem due_carriedOut (hx : Settling p likers x)
    (hdue : Due DocWrite.ref (wr ::ₘ M) x (Held srv x))
    (hget : ∀ r, srv'.docs.get r =
      if r = wr.ref then Documents.written wr (srv.docs.get r) else srv.docs.get r) :
    Due DocWrite.ref M x (Held srv' x) := by
  refine hdue.strike (fun h => ?_) fun hne hheld => hheld.congr ?_
  · subst h
    exact held_written hx ((hget _).trans (if_pos rfl))
  · exact (hget _).trans (if_neg (Ne.symm hne))

/-- The copy of a call tells how many like the post, and whether `u` does. -/
theorem likersAfter_card (hcount : post.likes = likers.card)
    (hu : u ∈ likers ↔ post.didLike = true) :
    recount post.didLike post.likes = (likersAfter post u likers).card := by
  rw [hcount, likersAfter]
  cases hl : post.didLike with
  | true =>
      have hmem : u ∈ likers := hu.mpr hl
      have hpos := Finset.card_pos.mpr ⟨u, hmem⟩
      rw [if_pos rfl, Finset.card_erase_of_mem hmem, recount, if_pos rfl]
      omega
  | false =>
      have hmem : u ∉ likers := fun h => by rw [hu.mp h] at hl; cases hl
      rw [if_neg Bool.false_ne_true, Finset.card_insert_of_notMem hmem, recount,
        if_neg Bool.false_ne_true]
      omega

theorem mem_likersAfter (post : Post) (u : Uid) (likers : Finset Uid) :
    (decide (u ∉ likersAfter post u likers) = post.didLike) ∧
      ∀ v, v ≠ u → (v ∈ likersAfter post u likers ↔ v ∈ likers) := by
  rw [likersAfter]
  cases hl : post.didLike <;> simp +contextual

/-- A call made from a copy that is up to date leaves every record with one
write to come, or as it is. -/
theorem due_call (hdue : ∀ x, Settling p likers x → Due DocWrite.ref M x (Held srv x))
    (hp : post.postId = p)
    (hfree : ∀ r ∈ likeRecords p u, atReg DocWrite.ref r M = 0)
    (hcount : post.likes = likers.card) (hu : u ∈ likers ↔ post.didLike = true) :
    ∀ x, Settling p (likersAfter post u likers) x →
      Due DocWrite.ref (callWrites post u + M) x (Held srv x) := by
  subst hp
  obtain ⟨hmark, hother⟩ := mem_likersAfter post u likers
  rintro x (_ | v | v)
  · have hx : DocWrite.updateData ⟨.posts, post.postId⟩
        [("likes", .int (likersAfter post u likers).card)] = countWrite post.didLike post := by
      rw [countWrite, likersAfter_card hcount hu]
    rw [hx]
    exact Due.new (hfree _ (by simp [likeRecords])) (by simp [callWrites])
  · by_cases hv : v = u
    · subst hv
      rw [hmark]
      exact Due.new (hfree _ (by simp [likeRecords])) (by simp [callWrites])
    · rw [show decide (v ∉ likersAfter post u likers) = decide (v ∉ likers) by
        rw [decide_eq_decide, hother v hv]]
      exact (hdue _ (.member v)).add (by simp [callWrites, Ne.symm hv])
  · by_cases hv : v = u
    · subst hv
      rw [hmark]
      exact Due.new (hfree _ (by simp [likeRecords])) (by simp [callWrites])
    · rw [show decide (v ∉ likersAfter post u likers) = decide (v ∉ likers) by
        rw [decide_eq_decide, hother v hv]]
      exact (hdue _ (.recorded v)).add (by simp [callWrites, Ne.symm hv])

end

/-! ## Runs -/

section

variable {D : Type} {p : DocId} {u : Uid} {post : Post} {w w' : World village D}
  {e : Event village D} {M : Multiset Write} {likers : Finset Uid}

/-- The likes of `p`: `M` is what is still to be written of the records, and
with that they come to what `likers` have it. -/
structure Recorded (p : DocId) (w : World village D) (M : Multiset Write) (likers : Finset Uid) :
    Prop where
  entered : w.Enters (likeMarks p) M
  due : ∀ x, Settling p likers x → Due DocWrite.ref M x (Held w.server x)
  /-- Nobody likes a post that is not there yet. -/
  unborn : w.server.present ⟨.posts, p⟩ = false → M = 0 ∧ likers = ∅

theorem recorded_emptyWorld : Recorded p (emptyWorld : World village D) 0 ∅ where
  entered := World.Enters.of_idle (fun _ => rfl) fun _ => rfl
  due x hx := by
    refine Or.inr ⟨rfl, ?_⟩
    cases hx with
    | count => exact fun stored h => by cases h
    | member u | recorded u => exact held_mark.mpr rfl
  unborn _ := ⟨rfl, rfl⟩

/-- What is still to be written are writes of the records. -/
theorem Recorded.free (h : Recorded p w M likers)
    (hsettled : ∀ d, (w.devices d).Writes fun wr : Write => ¬ ChangesLike p u wr) :
    ∀ r ∈ likeRecords p u, atReg DocWrite.ref r M = 0 := by
  intro r hr
  refine atReg_eq_zero fun y hy hyr => ?_
  have hmarks : ∀ d, (w.devices d).Writes fun wr : Write => ∀ x ∈ likeMarks p wr,
      ¬ ChangesLike p u x ∧ ∃ v, ChangesLike p v x := fun d =>
    (hsettled d).mono fun wr hwr x hx => by
      obtain ⟨rfl, hv⟩ := mem_likeMarks.mp hx
      exact ⟨hwr, hv⟩
  obtain ⟨hnot, v, -, hdata⟩ := h.entered.mem nonempty_ans nonempty_env hmarks hy
  exact hnot ⟨hyr ▸ hr, hdata⟩

theorem Recorded.eq_zero (h : Recorded p w M likers) (hsettled : LikesSettled w p) : M = 0 := by
  have hmarks : ∀ d, (w.devices d).Writes fun wr : Write => ∀ x ∈ likeMarks p wr, False :=
    fun d => (hsettled d).mono fun wr hwr x hx => by
      obtain ⟨-, v, hv⟩ := mem_likeMarks.mp hx
      exact hwr v hv
  exact Multiset.eq_zero_of_forall_notMem fun y hy =>
    h.entered.mem nonempty_ans nonempty_env hmarks hy

/-- Where no write of them is outstanding the records agree. -/
theorem Recorded.agree (h : Recorded p w M likers) (hM : M = 0) : LikesAgree w.server p := by
  subst hM
  have hheld : ∀ x, Settling p likers x → Held w.server x := fun x hx => (h.due x hx).settled rfl
  have hmember : ∀ v, w.server.present ⟨.postLikes p, v⟩ = decide (v ∈ likers) := fun v => by
    rw [held_mark.mp (hheld _ (.member v)), decide_not, Bool.not_not]
  have hrecord : ∀ v, w.server.present ⟨.userLikes v, p⟩ = decide (v ∈ likers) := fun v => by
    rw [held_mark.mp (hheld _ (.recorded v)), decide_not, Bool.not_not]
  refine ⟨fun data hdata => ?_, fun v => (hmember v).trans (hrecord v).symm⟩
  have hcount : w.server.docs.count (.postLikes p) = likers.card :=
    Documents.count_eq_card fun v => by
      rw [show (w.server.docs.get ⟨.postLikes p, v⟩).isSome = _ from hmember v, decide_eq_true_iff]
  rw [hheld _ .count data hdata, hcount]
  rfl

/-- A step that leaves the documents alone. -/
theorem Recorded.same {N : Multiset Write} (h : Recorded p w M likers)
    (hdocs : w'.server.docs = w.server.docs) (henters : w'.Enters (likeMarks p) N) (hN : N = M) :
    Recorded p w' N likers where
  entered := henters
  due x hx := hN ▸ (h.due x hx).imp fun hheld => hheld.congr (by rw [hdocs])
  unborn hp := hN ▸ h.unborn ((Server.present_congr (by rw [hdocs])).trans hp)

/-- A call on `p`, made from a copy that is up to date. -/
theorem Recorded.call (h : Recorded p w M likers) (hp : post.postId = p)
    (hcopy : UpToDate w post u) (hdocs : w'.server.docs = w.server.docs)
    (henters : w'.Enters (likeMarks p) (callWrites post u + M)) :
    Recorded p w' (callWrites post u + M) (likersAfter post u likers) := by
  subst hp
  have hfree := h.free hcopy.settled
  obtain ⟨data, hdata, hlikes⟩ := hcopy.count
  have hcount : post.likes = likers.card := by
    rw [← hlikes,
      (h.due _ .count).settled (hfree _ (by simp [likeRecords, DocWrite.ref])) data hdata]
    rfl
  have hmember : u ∈ likers ↔ post.didLike = true := by
    have hheld := held_mark.mp ((h.due _ (.member u)).settled (hfree _ (by simp [likeRecords])))
    rw [hcopy.member, decide_not, Bool.not_not] at hheld
    rw [hheld, decide_eq_true_iff]
  refine ⟨henters, fun x hx => ?_, fun hunborn => ?_⟩
  · exact (due_call h.due rfl hfree hcount hmember x hx).imp fun hheld =>
      hheld.congr (by rw [hdocs])
  · have hget : w'.server.docs.get ⟨.posts, post.postId⟩ = some data := by rw [hdocs, hdata]
    have hthere : w'.server.present ⟨.posts, post.postId⟩ = true := congrArg Option.isSome hget
    rw [hthere] at hunborn
    cases hunborn

/-- A write of a record is settled. -/
theorem Recorded.carriedOut {wr : Write} {docs : Documents Collection Value}
    (h : Recorded p w (wr ::ₘ M) likers) (ha : Documents.apply wr w.server.docs = some docs)
    (hdocs : w'.server.docs = docs) (henters : w'.Enters (likeMarks p) M)
    (hthere : w'.server.present ⟨.posts, p⟩ = false → w.server.present ⟨.posts, p⟩ = false) :
    Recorded p w' M likers where
  entered := henters
  due x hx := due_carriedOut hx (h.due x hx) fun r => by rw [hdocs, Documents.get_apply ha]
  unborn hp := by cases Multiset.cons_ne_zero (h.unborn (hthere hp)).1

/-- The post is written: nobody likes it yet. -/
theorem Recorded.created {x : Write} {data : Dictionary} (h : Recorded p w M likers)
    (hnew : w.server.present ⟨.posts, p⟩ = false) (hlikes : Dictionary.int data "likes" = 0)
    (hget : w'.server.docs.get ⟨.posts, p⟩ = some data) (hx : Settling p likers x)
    (href : x.ref = ⟨.posts, p⟩) : Due DocWrite.ref M x (Held w'.server x) := by
  obtain ⟨rfl, rfl⟩ := h.unborn hnew
  refine Or.inr ⟨rfl, ?_⟩
  cases hx with
  | count =>
      intro stored hs
      rw [← Option.some.inj (hget.symm.trans hs), hlikes]
      rfl
  | member u | recorded u => simp at href

variable [DecidableEq D]

/-- Nothing is under way that may take the post away. -/
theorem kept_active (hrun : Run (Current p) emptyWorld w) :
    ∀ d (t : Call), w.Active d t → t.op ≠ .remove p ∧ t.op ≠ .delete := by
  refine hrun.inv (fun w => ∀ d (t : Call), w.Active d t → t.op ≠ .remove p ∧ t.op ≠ .delete)
    (fun d t ht => absurd ht not_active_emptyWorld) fun w e w' ih hok hs d t ht => ?_
  rcases active_of_step hs ht with ht | ⟨a, he, rfl⟩
  · exact ih d t ht
  · exact hok.kept d a he

/-- Once it is written the post stays. -/
theorem present_of_stored (hrun : Run (Current p) emptyWorld w) (hst : Stored w.log p) :
    w.server.present ⟨.posts, p⟩ = true := by
  induction hrun with
  | refl =>
      obtain ⟨x, hx, -⟩ := hst
      cases hx
  | @step w w' e hrun _ hstep ih =>
      cases presentStep (stepped_of_step hstep) ⟨.posts, p⟩ with
      | same hp hlog =>
          obtain ⟨x, hx, data, ho⟩ := hst
          exact hp.trans (ih ⟨x, hlog x hx _ true ho rfl, data, ho⟩)
      | @put d b m ms he hw hputs hlog hp =>
          have hm : m ∈ (w.devices d).writes := by rw [hw]; exact List.mem_cons_self
          cases b with
          | true => exact hp
          | false =>
              have hwrite : m.write = .delete ⟨.posts, p⟩ := by
                cases hwr : m.write <;> rw [hwr] at hputs <;> cases hputs
                rfl
              have hok : WriteOk False w.log m.tag m.write :=
                (((sound_of_run hrun).code.held d).writes m hm).1
              rw [hwrite] at hok
              have hkept := kept_active hrun d m.tag
                (Device.mem_tags.mpr (Or.inr (Or.inl ⟨m, hm, rfl⟩)))
              exact absurd hok.1 (not_or.mpr hkept)

/-- So does what is there. -/
theorem unborn_of_step (hrun : Run (Current p) emptyWorld w) (hrun' : Run (Current p) emptyWorld w')
    (hlog : w.log <:+ w'.log) (h : w'.server.present ⟨.posts, p⟩ = false) :
    w.server.present ⟨.posts, p⟩ = false := by
  by_contra hthere
  obtain ⟨data, hdata⟩ := Option.isSome_iff_exists.mp (Bool.not_eq_false _ ▸ hthere)
  have hst : Stored w.log p :=
    ((sound_of_run hrun).docs _ _ hdata).2 rfl
  rw [present_of_stored hrun' (hst.mono hlog)] at h
  cases h

theorem Recorded.commit {d : D} {fail : Option FIRError} {m : Sent village}
    {ms : List (Sent village)} (hrun : Run (Current p) emptyWorld w)
    (hrun' : Run (Current p) emptyWorld w') (h : Recorded p w M likers)
    (hok : Current p w (.commit d fail)) (hw : (w.devices d).writes = m :: ms)
    (hlog : w.log <:+ w'.log) (hserver : w'.server = (settle village m.write fail w.server).1)
    {N : Multiset Write} (hM : M = likeMarks p m.write + N) (henters : w'.Enters (likeMarks p) N) :
    Recorded p w' N likers := by
  have hm : m ∈ (w.devices d).writes := by rw [hw]; exact List.mem_cons_self
  have hthere := unborn_of_step hrun hrun' hlog
  by_cases hchanges : ∃ u, ChangesLike p u m.write
  · obtain ⟨u, hu⟩ := hchanges
    obtain rfl := hok.written d fail m ms u rfl hw hu
    rw [likeMarks_pos hu, Multiset.singleton_add] at hM
    subst hM
    cases hres : (settle village m.write none w.server).2 with
    | none =>
        obtain ⟨-, docs, ha, hset⟩ := docs_accepted hres
        exact h.carriedOut ha (by rw [hserver, hset]) henters hthere
    | some err =>
        -- only an update of a post that is missing is refused
        obtain ⟨r, data, hwr, hget⟩ := refused_update hres
        have hwriteOk : WriteOk False w.log m.tag m.write :=
          (((sound_of_run hrun).code.held d).writes m hm).1
        rw [hwr] at hu hwriteOk
        have hr : r = ⟨.posts, p⟩ := by
          rcases changesLike_ref hu with hr | hr | hr
          · exact hr
          · rw [show r = _ from hr] at hwriteOk; exact hwriteOk.elim
          · rw [show r = _ from hr] at hwriteOk; exact hwriteOk.elim
        rw [hr] at hget
        cases Multiset.cons_ne_zero (h.unborn (congrArg Option.isSome hget)).1
  · rw [likeMarks_neg fun u hu => hchanges ⟨u, hu⟩, zero_add] at hM
    subst hM
    refine ⟨henters, fun x hx => ?_, fun hp => h.unborn (hthere hp)⟩
    by_cases hx' : (settle village m.write fail w.server).2 = none ∧ m.write.ref = x.ref
    · -- what is written is a new post
      obtain ⟨v, hv⟩ := settling_ref hx
      obtain ⟨data, hwr⟩ : ∃ data, m.write = .setData ⟨.posts, p⟩ data := by
        by_contra hne
        exact hchanges ⟨v, hx'.2 ▸ hv, fun data hwr => hne ⟨data, hwr⟩⟩
      obtain ⟨-, docs, ha, hset⟩ := docs_accepted hx'.1
      have href : x.ref = ⟨.posts, p⟩ := by rw [← hx'.2, hwr]; rfl
      refine h.created ?_ (likes_of_sent hrun hm hwr) ?_ hx href
      · by_contra hborn
        obtain ⟨old, hold⟩ := Option.isSome_iff_exists.mp (Bool.not_eq_false _ ▸ hborn)
        exact not_stored_of_sent hrun hm hwr
          (((sound_of_run hrun).docs _ _ hold).2 rfl)
      · rw [hserver, hset, ← href, Documents.get_apply ha, if_pos hx'.2.symm, hwr]
        rfl
    · refine (h.due x hx).imp fun hheld => hheld.congr ?_
      rw [hserver]
      exact docs_settle fun hres href => hx' ⟨hres, href⟩

theorem Recorded.step (hrun : Run (Current p) emptyWorld w) (hok : Current p w e)
    (hstep : step w e = some w') (h : Recorded p w M likers) :
    ∃ M' likers', Recorded p w' M' likers' := by
  have hs := stepped_of_step hstep
  have hrun' : Run (Current p) emptyWorld w' := .step hrun hok hstep
  cases h.entered.step hs with
  | @act d a he henters =>
      subst he
      have hdocs : w'.server.docs = w.server.docs := by cases hs; rfl
      have hkept := hok.kept d a rfl
      have henters := henters _ (enters_action a _ hkept.1 hkept.2)
      unfold marksOf at henters
      split at henters
      · next post u hcall =>
          split at henters
          · next hp => exact ⟨_, _, h.call hp (hok.call d a post u rfl hcall hp) hdocs henters⟩
          · exact ⟨_, _, h.same hdocs henters (zero_add M)⟩
      · exact ⟨_, _, h.same hdocs henters (zero_add M)⟩
  | @commit d fail m ms N he hw hM henters =>
      subst he
      have hserver : w'.server = (settle village m.write fail w.server).1 := by
        cases hs with
        | commit hw' => rw [hw] at hw'; cases hw'; rfl
      exact ⟨N, likers, h.commit hrun hrun' hok hw hs.log hserver hM henters⟩
  | other _ hcommit henters =>
      refine ⟨M, likers, h.same ?_ henters rfl⟩
      cases docsStep hs with
      | same hdocs _ => exact hdocs
      | wrote he => exact absurd he (hcommit _ _)

/-- As long as likes of a post are made from copies up to date, its records
agree whenever no write of them is outstanding. -/
theorem likes_agree (hrun : Run (Current p) emptyWorld w) (hsettled : LikesSettled w p) :
    LikesAgree w.server p := by
  have hrecorded : ∃ M likers, Recorded p w M likers := by
    clear hsettled
    induction hrun with
    | refl => exact ⟨0, ∅, recorded_emptyWorld⟩
    | step hrun hok hstep ih =>
        obtain ⟨M, likers, h⟩ := ih
        exact h.step hrun hok hstep
  obtain ⟨M, likers, h⟩ := hrecorded
  exact h.agree (h.eq_zero hsettled)

end

section

variable {D : Type} {p : DocId} {d : D} {a : Action} {w : World village D} {e : Event village D}

theorem current_pick (h : smooth.pick d w = some e) : Current p w e where
  call d' a post u he := by
    subst he
    obtain ⟨rfl, ha, -⟩ := Policy.pick_own h
    exact absurd rfl (ha a)
  written d' fail m ms u he _ _ := smooth_commit (he ▸ h)
  kept d' a he := by
    subst he
    obtain ⟨rfl, ha, -⟩ := Policy.pick_own h
    exact absurd rfl (ha a)

theorem current_act (hcopy : ∀ x ∈ likeCall a (w.devices d).loc, UpToDate w x.1 x.2)
    (hkept : a.op (w.devices d).loc ≠ .remove p ∧ a.op (w.devices d).loc ≠ .delete) :
    Current p w (.act d a) where
  call d' a' post u he hcall _ := by cases he; exact hcopy (post, u) hcall
  written _ _ _ _ _ he := by cases he
  kept d' a' he := by cases he; exact hkept

/-- A copy that is up to date, with nothing outstanding anywhere. -/
theorem upToDate_of_idle {post : Post} {u : Uid} (hidle : w.Idle)
    (hl : ∀ d, (w.devices d).listeners = [])
    (hcount : (w.server.docs.get ⟨.posts, post.postId⟩).map (Dictionary.int · "likes") =
      some post.likes)
    (hmember : w.server.present ⟨.postLikes post.postId, u⟩ = post.didLike) :
    UpToDate w post u where
  settled d := Device.Writes.of_idle (hidle d) (hl d)
  count := Option.map_eq_some_iff.mp hcount
  member := hmember

end

/-- Alice has uploaded a post, which her feed shows, and Bob's on another
device. -/
def bothShown : World village Bool :=
  emptyWorld
    |> smooth.perform false (.signUp "alice@dog.kr" "secret" "Alice" "alice" ⟨some []⟩) 100
    |> smooth.perform false (.didFinishPicking ⟨some []⟩) 100
    |> smooth.perform false (.tapDone 0 "walk") 100
    |> smooth.perform false (.feedCell 0 0 0) 100
    |> smooth.perform true (.signUp "bob@dog.kr" "secret" "Bob" "bob" ⟨some []⟩) 100
    |> smooth.perform true (.feedDidLoad 0) 100
    |> smooth.perform true (.feedCell 0 0 0) 100

/-- Both like it, Bob without having read it again. -/
def bothLiked : World village Bool :=
  bothShown
    |> smooth.perform false (.tapLike 0 0) 100
    |> smooth.perform true (.tapLike 0 0) 100

/-- Bob reads it again before. -/
def likedInTurn : World village Bool :=
  bothShown
    |> smooth.perform false (.tapLike 0 0) 100
    |> smooth.perform true (.feedRefresh 0) 100
    |> smooth.perform true (.feedCell 0 0 0) 100
    |> smooth.perform true (.tapLike 0 0) 100

theorem likes_agree_inTurn : LikesAgree likedInTurn.server "n3" := by
  refine likes_agree (w := likedInTurn) ?_ fun d => Device.Writes.of_idle ?_ ?_
  · -- every tap finds both devices idle, and its copy up to date
    unfold likedInTurn
    refine Policy.run_perform (fun _ _ h => current_pick h) (current_act (fun x hx =>
      upToDate_of_idle (fun d => ?_) (fun d => ?_) ?_ ?_) ⟨by decide, by decide⟩) ?_
    · revert d; decide
    · revert d; decide
    · revert x; decide
    · revert x; decide
    iterate 2
      refine Policy.run_perform (fun _ _ h => current_pick h)
        (current_act (fun _ h => nomatch h) ⟨nofun, nofun⟩) ?_
    refine Policy.run_perform (fun _ _ h => current_pick h) (current_act (fun x hx =>
      upToDate_of_idle (fun d => ?_) (fun d => ?_) ?_ ?_) ⟨by decide, by decide⟩) ?_
    · revert d; decide
    · revert d; decide
    · revert x; decide
    · revert x; decide
    unfold bothShown
    iterate 7
      refine Policy.run_perform (fun _ _ h => current_pick h)
        (current_act (fun _ h => nomatch h) ⟨nofun, nofun⟩) ?_
    exact .refl
  · revert d; decide
  · revert d; decide

example : likedInTurn.server.docs.count (.postLikes "n3") = 2 := by decide

/-- With a copy read before Alice's like, Bob's is not counted. -/
theorem bothLiked_disagrees :
    ¬ ∀ w : World village Bool, Run (fun _ e => Smooth e) emptyWorld w → LikesSettled w "n3" →
      LikesAgree w.server "n3" := by
  intro h
  have hrun : Run (fun _ e => Smooth e) emptyWorld bothLiked := by
    unfold bothLiked bothShown
    iterate 9
      refine Policy.run_perform (fun _ _ h => (smooth_pick h).2) ⟨nofun, nofun⟩ ?_
    exact .refl
  have hsettled : LikesSettled bothLiked "n3" := fun d => by
    refine Device.Writes.of_idle ?_ ?_ <;> revert d <;> decide
  have hcount := (h bothLiked hrun hsettled).count
  revert hcount
  decide

end DogVillage
