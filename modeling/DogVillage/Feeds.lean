import DogVillage.Edges
import DogVillage.Fanouts
import DogVillage.Records

/-!
# The feed as a join

A feed is to hold the posts of its owner and of everyone its owner follows.
Nothing computes it: an upload and a follow each add their part, and an
unfollow takes its part out, by what they read before. As long as no upload
overlaps a follow or an unfollow of its account, and no follow the unfollow
of the same pair, what each of them read still holds when it writes: a pair
of accounts is at rest, or is being marked by one kind of call.
-/

namespace DogVillage

open Async

/-! ## Calls that must not overlap -/

/-- One of the calls writes what the other reads or writes. -/
inductive Clash : Call → Call → Prop
  | share {gone v b} : Clash (uploadBy b) (edgeBy gone v b)
  | join {gone v b} : Clash (edgeBy gone v b) (uploadBy b)
  | turn {gone v b} : Clash (edgeBy gone v b) (edgeBy (!gone) v b)

theorem Clash.symm {t t' : Call} (h : Clash t t') : Clash t' t := by
  cases h with
  | share => exact .join
  | join => exact .share
  | @turn gone v b =>
      have h : Clash (edgeBy (!gone) v b) (edgeBy (!!gone) v b) := .turn
      rwa [Bool.not_not] at h

theorem Clash.ne {t t' : Call} (h : Clash t t') : t ≠ t' := by
  cases h with
  | share => exact uploadBy_ne_edgeBy
  | join => exact uploadBy_ne_edgeBy.symm
  | @turn gone v b =>
      intro heq
      have hgone := (edgeBy_inj heq).1
      cases gone <;> cases hgone

/-- A call by which `v` follows `b`, or no longer does, is made from a profile. -/
theorem edge_call {a : Action} {app : App} {gone : Bool} {v b : Uid}
    (ha : ∀ i c, a ≠ .tapFollow i c) (ht : (⟨app.currentUser, a.op app⟩ : Call) = edgeBy gone v b) :
    v ≠ b ∧ ∃ i user currentUser, user.uid = b ∧
      a.block.start app = edgeWrites gone v user.uid (onEdge i gone user currentUser) := by
  rcases feeds_op (by rw [ht]; exact feeds_edgeBy) with ⟨i, caption, rfl⟩ | ⟨i, rfl⟩ | ⟨i, c, rfl⟩
  · have hs := (Action.tapDone i caption).starts app
    have hop : (Action.tapDone i caption).op app = (edgeBy gone v b).op := congrArg Call.op ht
    rw [hop] at hs
    cases gone <;> cases hs
  · have htap := profileTap i app
    generalize (Action.tapActionButton i).op app = op at htap ht
    generalize (Action.tapActionButton i).block.start app = c at htap
    cases htap with
    | none h =>
        rcases h with rfl | h
        · cases gone <;> cases congrArg Call.op ht
        · rw [show app.currentUser = some v from congrArg Call.actor ht] at h
          cases h
    | @follow _ user currentUser _ _ _ _ huid hne _ =>
        rw [huid] at ht
        obtain ⟨rfl, rfl, rfl⟩ := @edgeBy_inj false _ _ _ _ _ ht
        exact ⟨hne, i, user, currentUser, rfl, rfl⟩
    | @unfollow _ user currentUser _ _ _ _ huid hne _ =>
        rw [huid] at ht
        obtain ⟨rfl, rfl, rfl⟩ := @edgeBy_inj true _ _ _ _ _ ht
        exact ⟨hne, i, user, currentUser, rfl, rfl⟩
  · exact absurd rfl (ha i c)

section

variable {D : Type} [DecidableEq D]

/-- Only profiles are followed from, nothing fails, and an account stays
signed in until its call is done. -/
structure Scope (w : World village D) (e : Event village D) : Prop where
  profile : ∀ d a, e = .act d a → ∀ i c, a ≠ .tapFollow i c
  noFailure : NoFailure w e
  signedIn : ∀ d t, w.Active d t → t.SignedIn (w.devices d).loc

/-- No call begins while one it clashes with is outstanding. -/
structure Apart (w : World village D) (e : Event village D) : Prop extends Scope w e where
  apart : ∀ d a, e = .act d a → ∀ d' t, w.Active d' t →
    ¬Clash (village.ui a (w.devices d).loc).1 t

/-- The post `p` of `b` has been sent, and not been removed. -/
structure PostOf (log : Log D) (p : DocId) (b : Uid) : Prop where
  owner : Owner log p b
  posted : Posted log p
  kept : ¬Removed log p

/-- The document of the post is still to be written. -/
def posting (p : DocId) : Debt sig where
  write wr := ∃ data, wr = .setData ⟨.posts, p⟩ data

/-- Something outstanding on the device stems from such a call. -/
def Pending (dev : Device village) (t : Call) : Prop :=
  (∃ j ∈ dev.jobs, j.tag = t) ∨ (∃ m ∈ dev.writes, m.tag = t) ∨ ∃ m ∈ dev.asks, m.tag = t

theorem pending_of_owedBy {debt : Debt sig} {dev : Device village} {t : Call}
    (h : debt.OwedBy dev t) : Pending dev t := by
  rcases h with ⟨j, hj, ht, -⟩ | ⟨m, hm, ht, -⟩ | ⟨m, hm, ht, -⟩
  · exact Or.inl ⟨j, hj, ht⟩
  · exact Or.inr (Or.inl ⟨m, hm, ht⟩)
  · exact Or.inr (Or.inr ⟨m, hm, ht⟩)

theorem not_pending_of_idle {dev : Device village} {t : Call} (h : dev.idle = true) :
    ¬Pending dev t := by
  obtain ⟨hjobs, hwrites, hasks⟩ := Device.idle_iff.mp h
  simp [Pending, hjobs, hwrites, hasks]

omit [DecidableEq D] in
theorem Pending.active {w : World village D} {d : D} {t : Call} (h : Pending (w.devices d) t) :
    w.Active d t :=
  Device.mem_tags.mpr (h.imp_right (Or.imp_right Or.inl))

/-- What holds on the way, whatever the feeds show. -/
structure Upkeep (w : World village D) : Prop where
  sound : Sound False w
  code : fanouts.Inv w
  leaves : w.Leaves Call.SignedIn SharesNext
  other : ∀ d gone v b, w.Active d (edgeBy gone v b) → v ≠ b
  apart : ∀ d d' t t', w.Active d t → w.Active d' t' → ¬Clash t t'
  sent : ∀ d, ∀ m ∈ (w.devices d).writes, ∀ p data,
    m.write = .setData ⟨.posts, p⟩ data → Posted w.log p
  owned : ∀ p, Posted w.log p → ∃ b, Owner w.log p b
  stored : ∀ p b, PostOf w.log p b → w.server.present ⟨.posts, p⟩ = true ∨
    ∃ d, (posting p).OwedBy (w.devices d) (uploadBy b)

omit [DecidableEq D] in
theorem upkeep_emptyWorld : Upkeep (emptyWorld : World village D) where
  sound := sound_emptyWorld
  code :=
    { loc := fun _ => trivial
      held := fun _ => by constructor <;> simp [emptyWorld, Device.jobs] }
  leaves _ := .of_idle rfl rfl
  other _ _ _ _ h := absurd h not_active_emptyWorld
  apart _ _ _ _ h := absurd h not_active_emptyWorld
  sent _ _ h := by cases h
  owned _ h := by obtain ⟨_, h, -⟩ := h; cases h
  stored _ _ h := by obtain ⟨_, h, -⟩ := h.posted; cases h

variable {w w' : World village D} {e : Event village D} {d : D} {gone : Bool} {v b : Uid}
  {p : DocId} {r : Ref Collection}

omit [DecidableEq D] in
theorem Upkeep.feedWrite (h : Upkeep w) {m : Sent village} (hm : m ∈ (w.devices d).writes) :
    FeedWrite (fanouts.of w) m.tag m.write := ((h.code.held d).writes m hm).1

theorem ref_of_puts {wr : Write} {x : Bool} (h : wr.puts = some (r, x)) : wr.ref = r := by
  cases wr <;> cases h <;> rfl

/-- A follow is marked by a call about it. -/
theorem Upkeep.edge_step (h : Upkeep w) (hs : Stepped w e w') (hr : Edge v b r) :
    w'.server.present r = w.server.present r ∨
      ∃ d gone, w.Active d (edgeBy gone v b) ∧ w'.server.present r = !gone := by
  cases presentStep hs r with
  | same hp _ => exact Or.inl hp
  | @put d x m ms he hw hputs _ hp =>
      have hm : m ∈ (w.devices d).writes := by rw [hw]; exact List.mem_cons_self
      obtain ⟨gone, hwr, ht⟩ := (h.feedWrite hm).edge (ref_of_puts hputs) hr
      rw [hwr, puts_markWrite] at hputs
      cases hputs
      exact Or.inr ⟨d, gone, ht ▸ active_of_sent hm, hp⟩

/-- A document of a feed is marked by a call about its post's owner, or put
in place by the upload. -/
theorem Upkeep.feed_step (h : Upkeep w) (hs : Stepped w e w') (ho : Owner w.log p b) :
    w'.server.present ⟨.userFeed v, p⟩ = w.server.present ⟨.userFeed v, p⟩ ∨
      (∃ d gone, w.Active d (edgeBy gone v b) ∧ w'.server.present ⟨.userFeed v, p⟩ = !gone) ∨
      ((∃ d, w.Active d (uploadBy b)) ∧ w.server.shares v b ∧
        w'.server.present ⟨.userFeed v, p⟩ = true) := by
  cases presentStep hs ⟨.userFeed v, p⟩ with
  | same hp _ => exact Or.inl hp
  | @put d x m ms he hw hputs _ hp =>
      have hm : m ∈ (w.devices d).writes := by rw [hw]; exact List.mem_cons_self
      obtain ⟨b', gone, hwr, ho', ht⟩ := (h.feedWrite hm).feed (ref_of_puts hputs)
      rw [hwr, puts_markWrite] at hputs
      cases hputs
      obtain rfl : b' = b := h.sound.owner_unique ho' ho
      rcases ht with ht | ⟨rfl, ht, hshares⟩
      · exact Or.inr (Or.inl ⟨d, gone, ht ▸ active_of_sent hm, hp⟩)
      · exact Or.inr (Or.inr ⟨⟨d, ht ▸ active_of_sent hm⟩, hshares, hp⟩)

/-! ## Posts -/

omit [DecidableEq D] in
theorem Sound.owner_of_owns (h : Sound False w) (hp : w.server.owns b p) : Owner w.log p b := by
  obtain ⟨data, hget, hl⟩ := hp
  obtain ⟨⟨⟨u, ⟨hl', -⟩, ho⟩, -⟩, -⟩ := h.docs _ _ hget
  rw [hl] at hl'
  cases hl'
  exact ho

omit [DecidableEq D] in
theorem Sound.owns_of_owner (h : Sound False w) (ho : Owner w.log p b)
    (hp : w.server.present ⟨.posts, p⟩ = true) : w.server.owns b p := by
  obtain ⟨data, hget⟩ := Option.isSome_iff_exists.mp hp
  obtain ⟨⟨⟨u, ⟨hl, -⟩, ho'⟩, -⟩, -⟩ := h.docs _ _ hget
  obtain rfl : u = b := h.owner_unique ho' ho
  exact ⟨data, hget, hl⟩

/-- A post is sent by its owner's upload. -/
theorem uploadBy_of_issues (hsound : Sound False w') (hcode : fanouts.Inv w')
    (hs : Stepped w e w') {t : Call} {data : Dictionary}
    (hiss : e.Issues w d t (.setData ⟨.posts, p⟩ data)) :
    ∃ b, t = uploadBy b ∧ Owner w'.log p b := by
  obtain ⟨m, hm, rfl, hwr⟩ := hiss.sent hs
  have hok : WriteOk False w'.log m.tag m.write := ((hsound.code.held d).writes m hm).1
  have hfeed : FeedWrite (fanouts.of w') m.tag m.write := ((hcode.held d).writes m hm).1
  rw [hwr] at hok hfeed
  exact hfeed.post hok.2

/-- A post has been sent before, or is just being sent. -/
theorem Upkeep.posted_step (h : Upkeep w) (hs : Stepped w e w') (hp : Posted w'.log p) :
    Posted w.log p ∨ ∃ d t data, e.Issues w d t (.setData ⟨.posts, p⟩ data) := by
  obtain ⟨x, hx, data, ho | ho⟩ := hp
  · rcases issued_of_step hs hx ho with hx | ⟨m, hm, -, hwr⟩
    · exact Or.inl ⟨x, hx, data, Or.inl ho⟩
    · rcases sent_of_step hs hm with hm | hiss
      · exact Or.inl (h.sent _ m hm p data hwr)
      · exact Or.inr ⟨_, _, data, hwr ▸ hiss⟩
  · rcases wrote_of_step hs hx ho with hx | ⟨_, m, ms, -, hw, -, hwr, -⟩
    · exact Or.inl ⟨x, hx, data, Or.inr ho⟩
    · exact Or.inl (h.sent _ m (by rw [hw]; exact List.mem_cons_self) p data hwr)

theorem Upkeep.postOf_step (h : Upkeep w) (hs : Stepped w e w') (hsound : Sound False w')
    (hcode : fanouts.Inv w') (hp : PostOf w'.log p b) :
    PostOf w.log p b ∨
      ¬Posted w.log p ∧ ∃ d data, e.Issues w d (uploadBy b) (.setData ⟨.posts, p⟩ data) := by
  by_cases hold : Posted w.log p
  · obtain ⟨b', ho⟩ := h.owned p hold
    obtain rfl : b' = b := hsound.owner_unique (ho.mono hs.log) hp.owner
    exact Or.inl ⟨ho, hold, fun hgone => hp.kept (hgone.mono hs.log)⟩
  · obtain ⟨d, t, data, hiss⟩ := (h.posted_step hs hp.posted).resolve_left hold
    obtain ⟨b', rfl, ho⟩ := uploadBy_of_issues hsound hcode hs hiss
    obtain rfl : b' = b := hsound.owner_unique ho hp.owner
    exact Or.inr ⟨hold, d, data, hiss⟩

/-- A debt that is paid where nothing fails shows in the document. -/
theorem present_paid {debt : Debt sig} {t : Call} {x : Bool} (hpaid : debt.Paid w d t e)
    (hs : Stepped w e w') (hok : NoFailure w e) (hask : ∀ q, ¬debt.ask q)
    (hputs : ∀ wr, debt.write wr → wr.puts = some (r, x)) : w'.server.present r = x := by
  cases hpaid with
  | answer _ _ hb => exact absurd hb (hask _)
  | @commit fail m ms hw _ hb =>
      obtain rfl : fail = none := hok
      cases hs with
      | commit hw' =>
          rw [hw] at hw'
          cases hw'
          have hp : (settle village m.write none w.server).1.present r = _ :=
            present_settle fun _ _ => rfl
          rw [hputs _ hb] at hp
          exact hp.trans (by simp [Echo.valuesOf])

/-- A post that is there stays there until it is removed. -/
theorem post_stays (hs : Stepped w e w') (hkept : ¬Removed w'.log p)
    (hp : w.server.present ⟨.posts, p⟩ = true) : w'.server.present ⟨.posts, p⟩ = true := by
  cases presentStep hs ⟨.posts, p⟩ with
  | same hsame _ => rw [hsame, hp]
  | @put d x m ms he hw hputs hlog hx =>
      cases hwr : m.write with
      | setData r data => rw [hwr] at hputs; cases hputs; exact hx
      | updateData r data => rw [hwr] at hputs; cases hputs
      | delete r =>
          rw [hwr] at hputs hlog
          cases hputs
          exact absurd ⟨_, hlog ▸ List.mem_cons_self, rfl⟩ hkept

/-! ## What is read -/

omit [DecidableEq D] in
theorem served_of_answers (hok : NoFailure w e) {t : Call} {q : Ask} {a : q.Ans} {srv : Server}
    (hans : e.Answers w d t q a srv) :
    ∃ c, Server.serve q c w.server = some (a, srv) ∧ ∀ err, c ≠ .fail err := by
  cases hans with
  | answer _ hv => exact ⟨_, hv, hok⟩
  | notify _ hv => exact ⟨_, hv, hok⟩

omit [DecidableEq D] in
/-- Where nothing fails a query is answered with the documents it selects. -/
theorem answeredBy_of_answers (hok : NoFailure w e) {t : Call} {q : Ask} {a : q.Ans} {srv : Server}
    {query : Query Collection Value} {P : List (DocId × Dictionary) → Prop}
    (hP : P (w.server.docs.select query)) (hans : e.Answers w d t q a srv) :
    AnsweredBy query P q a := by
  obtain ⟨c, hv, hc⟩ := served_of_answers hok hans
  cases q with
  | getDocuments q =>
      rintro rfl
      cases c <;> cases hv
      · exact ⟨_, rfl, hP⟩
      · exact absurd rfl (hc _)
  | _ => trivial

theorem Upkeep.answer_step (h : Upkeep w) (hs : Stepped w e w') {t : Call} {q : Ask} {a : q.Ans}
    {srv : Server} (hans : e.Answers w d t q a srv) : FeedAnswer (fanouts.of w') t q a := by
  obtain ⟨-, hsrv⟩ := hans.step hs
  obtain ⟨c, hv⟩ := hans.serve
  cases q with
  | getDocuments q =>
      intro documents ha x hx
      have hdocs : w'.server.docs = w.server.docs := hsrv ▸ answers_docs hans
      have hmem : x ∈ w.server.docs.select q := by
        cases c <;> cases hv <;> cases ha
        exact hx
      obtain ⟨hget, hsel⟩ := Documents.mem_select.mp hmem
      refine ⟨fun b _ hq => ?_, fun b hq => ?_⟩
      · subst hq
        show (w'.server.docs.get _).isSome = true
        rw [hdocs, hget]
        rfl
      · subst hq
        exact (h.sound.owner_of_owns ⟨x.2, hget, by simpa [Query.selects] using hsel⟩).mono hs.log
  | _ => trivial

/-! ## One step -/

theorem Upkeep.code_step (h : Upkeep w) (hok : Scope w e) (hs : Stepped w e w') :
    fanouts.Inv w' := by
  refine h.code.step hs (fun d t ht => ⟨hs.log, ?_⟩) (fun _ _ _ => trivial) ?_
    (fun d t ht => hok.signedIn d t ht.active) ?_ (fun _ _ _ _ => trivial)
    fun _ _ _ _ _ hans => h.answer_step hs hans
  · rintro b rfl v
    rcases h.edge_step hs (v := v) (b := b) (Or.inr rfl) with hsame | ⟨d', gone, ht', -⟩
    · exact fun hp => hsame.trans hp
    · exact absurd .share (h.apart d d' _ _ ht ht')
  · exact fun d a _ => fanout_action a _
  · exact fun d t v hv u hu => ⟨_, (hv.step hs).1 ▸ List.mem_cons_self, v, rfl, rfl, hu⟩

theorem Upkeep.stored_step (h : Upkeep w) (hok : Scope w e) (hs : Stepped w e w')
    (hsound : Sound False w') (hcode : fanouts.Inv w') (hp : PostOf w'.log p b) :
    w'.server.present ⟨.posts, p⟩ = true ∨
      ∃ d, (posting p).OwedBy (w'.devices d) (uploadBy b) := by
  have hkept := hp.kept
  rcases h.postOf_step hs hsound hcode hp with hp | ⟨-, d, data, hiss⟩
  · rcases h.stored p b hp with hthere | ⟨d, howed⟩
    · exact Or.inl (post_stays hs hkept hthere)
    · rcases howed.step hs trivial (fun _ _ _ _ _ => trivial) fun _ _ _ _ => trivial with
        howed | hpaid
      · exact Or.inr ⟨d, howed⟩
      · refine Or.inl (present_paid hpaid hs hok.noFailure (fun _ h => h) ?_)
        rintro wr ⟨data, rfl⟩
        rfl
  · obtain ⟨m, hm, ht, hwr⟩ := hiss.sent hs
    exact Or.inr ⟨d, Or.inr (Or.inl ⟨m, hm, ht, Or.inl ⟨data, hwr⟩⟩)⟩

theorem Upkeep.step (h : Upkeep w) (hok : Apart w e) (hs : Stepped w e w') : Upkeep w' := by
  have hsound := h.sound.step hs fun hf => hf.elim
  have hcode := h.code_step hok.toScope hs
  constructor
  · exact hsound
  · exact hcode
  · exact h.leaves.step (fun _ _ _ _ hl => sharesNext_start hl) hs
      (fun d a _ => leaves_action a _) fun d t ht => hok.signedIn d t ht.active
  · intro d gone v b ht
    rcases active_of_step hs ht with ht | ⟨a, he, ht⟩
    · exact h.other d gone v b ht
    · exact (edge_call (hok.profile d a he) ht.symm).1
  · intro d d' t t' ht ht' hc
    rcases active_of_step hs ht with hold | ⟨a, he, rfl⟩ <;>
      rcases active_of_step hs ht' with hold' | ⟨a', he', rfl⟩
    · exact h.apart d d' t t' hold hold' hc
    · exact hok.apart d' a' he' d t hold hc.symm
    · exact hok.apart d a he d' t' hold' hc
    · rw [he] at he'
      cases he'
      exact hc.ne rfl
  · intro d m hm p data hwr
    rcases sent_of_step hs hm with hm | hiss
    · exact (h.sent d m hm p data hwr).mono hs.log
    · exact ⟨_, hiss.log hs ▸ List.mem_cons_self, data, Or.inl (by rw [hwr])⟩
  · intro p hp
    rcases h.posted_step hs hp with hp | ⟨d, t, data, hiss⟩
    · exact (h.owned p hp).imp fun b ho => ho.mono hs.log
    · exact (uploadBy_of_issues hsound hcode hs hiss).imp fun b ho => ho.2
  · exact fun p b hp => h.stored_step hok.toScope hs hsound hcode hp

/-! ## A pair of accounts -/

/-- A document that shows whether `v` follows `b`. -/
def Marks (log : Log D) (v b : Uid) (r : Ref Collection) : Prop :=
  Edge v b r ∨ ∃ p, PostOf log p b ∧ r = ⟨.userFeed v, p⟩

/-- While `v` follows `b`, or no longer does: what is not marked yet will be. -/
def Marking (w : World village D) (gone : Bool) (v b : Uid) : Prop :=
  ∀ r, Marks w.log v b r → w.server.present r = !gone ∨
    ∃ d, (joining gone v b r).OwedBy (w.devices d) (edgeBy gone v b)

/-- No call about the pair is outstanding: what `v` should see of `b` is
there or will be, and nothing else is. -/
structure Resting (w : World village D) (v b : Uid) : Prop where
  edges : w.server.present ⟨.userFollowing v, b⟩ = w.server.present ⟨.userFollowers b, v⟩
  shared : ∀ p, PostOf w.log p b → w.server.shares v b →
    w.server.present ⟨.userFeed v, p⟩ = true ∨
      ∃ d, (sharing v b p).OwedBy (w.devices d) (uploadBy b)
  belongs : ∀ p, PostOf w.log p b → w.server.present ⟨.userFeed v, p⟩ = true →
    w.server.shares v b

omit [DecidableEq D] in
/-- When the last call about a pair is done, everything is marked. -/
theorem Marking.resting (h : Marking w gone v b) (hvb : v ≠ b)
    (hdone : ∀ d, ¬Pending (w.devices d) (edgeBy gone v b)) : Resting w v b := by
  have hmarked : ∀ r, Marks w.log v b r → w.server.present r = !gone := fun r hr =>
    (h r hr).resolve_right fun ⟨d, howed⟩ => hdone d (pending_of_owedBy howed)
  have hfollowers := hmarked _ (Or.inl (Or.inr rfl))
  refine ⟨?_, fun p hp hs => Or.inl ?_, fun p hp hthere => Or.inr ?_⟩
  · rw [hfollowers, hmarked _ (Or.inl (Or.inl rfl))]
  · rw [hmarked _ (Or.inr ⟨p, hp, rfl⟩), ← hfollowers]
    exact hs.resolve_left hvb
  · rw [hfollowers, ← hmarked _ (Or.inr ⟨p, hp, rfl⟩), hthere]

/-- A call about the pair begins. -/
theorem marking_of_act {a : Action} (hs : Stepped w (.act d a) w')
    (ha : ∀ i c, a ≠ .tapFollow i c) (ht : (village.ui a (w.devices d).loc).1 = edgeBy gone v b) :
    Marking w' gone v b := by
  intro r hr
  refine Or.inr ⟨d, Or.inl ⟨⟨_, (village.ui a (w.devices d).loc).2.start (w.devices d).loc⟩,
    ?_, ht, ?_⟩⟩
  · cases hs with
    | act hmain =>
        rw [World.put_device, Device.begin_jobs hmain]
        exact List.mem_cons_self
  · have hr' : Edge v b r ∨ ∃ p, r = ⟨.userFeed v, p⟩ :=
      hr.imp_right fun ⟨p, hp⟩ => ⟨p, hp.2⟩
    obtain ⟨-, i, user, currentUser, rfl, hblock⟩ := edge_call ha ht
    show (joining gone v user.uid r).Owes (a.block.start (w.devices d).loc)
    rw [hblock]
    exact owes_edgeWrites hr'

omit [DecidableEq D] in
theorem mem_posts_of_owner (h : Sound False w) (ho : Owner w.log p b)
    (hp : w.server.present ⟨.posts, p⟩ = true) :
    ∃ x ∈ w.server.docs.select (postsQuery b), x.1 = p := by
  obtain ⟨data, hget, hl⟩ := h.owns_of_owner ho hp
  exact ⟨(p, data), Documents.mem_select.mpr ⟨hget, by simp [Query.selects, hl]⟩, rfl⟩

omit [DecidableEq D] in
theorem mem_followers_of_shares (h : w.server.shares v b) :
    v = b ∨ ∃ x ∈ w.server.docs.select (followersQuery b), x.1 = v := by
  refine h.imp_right fun hp => ?_
  obtain ⟨data, hget⟩ := Option.isSome_iff_exists.mp hp
  exact ⟨(v, data), Documents.mem_select.mpr ⟨hget, by simp [Query.selects]⟩, rfl⟩

/-- While a pair is marked one way, nobody marks it the other way or shares
a post. -/
theorem Upkeep.marked_step (h : Upkeep w) (hs : Stepped w e w')
    (hbusy : w.Active d (edgeBy gone v b)) (hr : Marks w.log v b r)
    (hp : w.server.present r = !gone) : w'.server.present r = !gone := by
  have hsame : ∀ {d' gone'}, w.Active d' (edgeBy gone' v b) → gone' = gone := by
    intro d' gone' ht
    by_contra hne
    obtain rfl : gone' = !gone := Bool.eq_not_of_ne hne
    exact h.apart d d' _ _ hbusy ht .turn
  rcases hr with hr | ⟨p, hpost, rfl⟩
  · rcases h.edge_step hs hr with heq | ⟨d', gone', ht, heq⟩
    · rw [heq, hp]
    · rw [heq, hsame ht]
  · rcases h.feed_step hs hpost.owner with heq | ⟨d', gone', ht, heq⟩ | ⟨⟨d', ht⟩, -⟩
    · rw [heq, hp]
    · rw [heq, hsame ht]
    · exact absurd .join (h.apart d d' _ _ hbusy ht)

theorem Upkeep.marking_step (h : Upkeep w) (hok : Scope w e) (hs : Stepped w e w')
    (h' : Upkeep w') (hbusy : w.Active d (edgeBy gone v b)) (hm : Marking w gone v b) :
    Marking w' gone v b := by
  have hidle : ∀ d', ¬w.Active d' (uploadBy b) := fun d' ht => h.apart d d' _ _ hbusy ht .join
  intro r hr
  have hold : Marks w.log v b r := by
    refine hr.imp_right (Exists.imp fun p hp => hp.imp_left fun hpost => ?_)
    rcases h.postOf_step hs h'.sound h'.code hpost with hpost | ⟨-, d', data, hiss⟩
    · exact hpost
    · exact absurd hiss.active (hidle d')
  rcases hm r hold with hp | ⟨d', howed⟩
  · exact Or.inl (h.marked_step hs hbusy hold hp)
  · have hread : ∀ p, r = ⟨.userFeed v, p⟩ →
        ∃ x ∈ w.server.docs.select (postsQuery b), x.1 = p := by
      rintro p rfl
      rcases hold with (hr | hr) | ⟨p', hpost, hr⟩
      · cases hr
      · cases hr
      · cases hr
        refine mem_posts_of_owner h.sound hpost.owner ((h.stored p b hpost).resolve_right ?_)
        exact fun ⟨d', howed⟩ => hidle d' howed.mem_tags
    rcases howed.step hs (hok.signedIn d' _ howed.mem_tags feeds_edgeBy)
      (fun _ _ _ _ _ => trivial) (fun _ _ _ hans => answeredBy_of_answers hok.noFailure hread hans)
      with howed | hpaid
    · exact Or.inr ⟨d', howed⟩
    · refine Or.inl (present_paid hpaid hs hok.noFailure (fun _ h => h) ?_)
      rintro wr rfl
      exact puts_markWrite r

theorem Upkeep.resting_step (h : Upkeep w) (hok : Scope w e) (hs : Stepped w e w')
    (h' : Upkeep w') (hquiet : ∀ d gone, ¬w.Active d (edgeBy gone v b)) (hr : Resting w v b) :
    Resting w' v b := by
  have hedge : ∀ {r}, Edge v b r → w'.server.present r = w.server.present r := fun hr =>
    (h.edge_step hs hr).resolve_right fun ⟨d, gone, ht, _⟩ => hquiet d gone ht
  have hfollowers := hedge (Or.inr rfl)
  have hshares : w'.server.shares v b ↔ w.server.shares v b := by
    unfold Server.shares
    rw [hfollowers]
  have hfeed : ∀ {p}, PostOf w.log p b →
      w'.server.present ⟨.userFeed v, p⟩ = w.server.present ⟨.userFeed v, p⟩ ∨
        w.server.shares v b ∧ w'.server.present ⟨.userFeed v, p⟩ = true := fun hpost => by
    rcases h.feed_step hs hpost.owner with heq | ⟨d, gone, ht, -⟩ | ⟨-, heq⟩
    · exact Or.inl heq
    · exact absurd ht (hquiet d gone)
    · exact Or.inr heq
  constructor
  · rw [hedge (Or.inl rfl), hfollowers]
    exact hr.edges
  · intro p hpost hs'
    have hshare := hshares.mp hs'
    rcases h.postOf_step hs h'.sound h'.code hpost with hpost | ⟨-, d, data, hiss⟩
    · rcases hr.shared p hpost hshare with hp | ⟨d, howed⟩
      · rcases hfeed hpost with heq | ⟨-, heq⟩
        · exact Or.inl (by rw [heq, hp])
        · exact Or.inl heq
      · rcases howed.step hs (hok.signedIn d _ howed.mem_tags feeds_uploadBy)
          (fun _ _ _ _ _ => trivial)
          (fun _ _ _ hans =>
            answeredBy_of_answers hok.noFailure (mem_followers_of_shares hshare) hans)
          with howed | hpaid
        · exact Or.inr ⟨d, howed⟩
        · refine Or.inl (present_paid hpaid hs hok.noFailure (fun _ h => h) ?_)
          rintro wr rfl
          exact puts_markWrite _
    · obtain ⟨n, hj, hn⟩ := h.leaves.issued hs hiss
      exact Or.inr ⟨d, Or.inl ⟨_, hj, rfl, hn b p data rfl rfl v⟩⟩
  · intro p hpost hp
    refine hshares.mpr ?_
    rcases h.postOf_step hs h'.sound h'.code hpost with hpost | ⟨hnew, d, data, hiss⟩
    · rcases hfeed hpost with heq | ⟨hshare, -⟩
      · exact hr.belongs p hpost (by rw [← heq, hp])
      · exact hshare
    · -- a post that is only being sent is in no feed
      refine absurd ?_ hnew
      have hthere : w.server.present ⟨.userFeed v, p⟩ = true := by
        cases presentStep hs ⟨.userFeed v, p⟩ with
        | same heq _ => rw [← heq, hp]
        | put he => subst he; cases hiss
      obtain ⟨data, hget⟩ := Option.isSome_iff_exists.mp hthere
      exact (h.sound.docs _ _ hget).1

/-! ## Runs -/

/-- A pair of accounts is at rest, or is being marked by its calls. -/
structure Maintained (w : World village D) : Prop where
  upkeep : Upkeep w
  resting : ∀ v b, (∀ d gone, ¬w.Active d (edgeBy gone v b)) → Resting w v b
  marking : ∀ d gone v b, w.Active d (edgeBy gone v b) → Marking w gone v b

theorem Maintained.step (h : Maintained w) (hok : Apart w e) (hs : Stepped w e w') :
    Maintained w' where
  upkeep := h.upkeep.step hok hs
  resting v b hquiet := by
    have h' := h.upkeep.step hok hs
    by_cases hbusy : ∃ d gone, w.Active d (edgeBy gone v b)
    · obtain ⟨d, gone, hbusy⟩ := hbusy
      have hm := h.upkeep.marking_step hok.toScope hs h' hbusy (h.marking d gone v b hbusy)
      exact hm.resting (h.upkeep.other d gone v b hbusy) fun d' hp =>
        hquiet d' gone hp.active
    · have hidle : ∀ d gone, ¬w.Active d (edgeBy gone v b) := fun d gone ht => hbusy ⟨d, gone, ht⟩
      exact h.upkeep.resting_step hok.toScope hs h' hidle (h.resting v b hidle)
  marking d gone v b hbusy := by
    have h' := h.upkeep.step hok hs
    rcases active_of_step hs hbusy with hold | ⟨a, rfl, ht⟩
    · exact h.upkeep.marking_step hok.toScope hs h' hold (h.marking d gone v b hold)
    · exact marking_of_act hs (hok.profile d a rfl) ht.symm

theorem maintained_of_run (hrun : Run Apart emptyWorld w) : Maintained w := by
  refine hrun.inv Maintained ⟨upkeep_emptyWorld, fun v b _ => ⟨rfl, ?_, ?_⟩, ?_⟩
    fun _ _ _ h hok hs => h.step hok hs
  · rintro p ⟨-, ⟨_, hx, -⟩, -⟩
    cases hx
  · rintro p ⟨-, ⟨_, hx, -⟩, -⟩
    cases hx
  · exact fun d gone v b h => absurd h not_active_emptyWorld

omit [DecidableEq D] in
/-- Where no upload and no follow is outstanding, every pair is at rest. -/
theorem Maintained.settled (h : Maintained w)
    (hdone : ∀ d t, t.feeds = true → ¬Pending (w.devices d) t) (v b : Uid) : Resting w v b := by
  by_cases hbusy : ∃ d gone, w.Active d (edgeBy gone v b)
  · obtain ⟨d, gone, hbusy⟩ := hbusy
    exact (h.marking d gone v b hbusy).resting
      (h.upkeep.other d gone v b hbusy) fun d' => hdone d' _ feeds_edgeBy
  · exact h.resting v b fun d gone ht => hbusy ⟨d, gone, ht⟩

omit [DecidableEq D] in
/-- Where no upload and no follow is outstanding, a feed is the join, but for
posts that were removed. -/
theorem Maintained.feed (h : Maintained w)
    (hdone : ∀ d t, t.feeds = true → ¬Pending (w.devices d) t) (u : Uid) {p : DocId}
    (hkept : ¬Removed w.log p) : w.server.present ⟨.userFeed u, p⟩ = true ↔
      ∃ b, w.server.owns b p ∧ (b = u ∨ w.server.present ⟨.userFollowing u, b⟩ = true) := by
  have hsound := h.upkeep.sound
  have hdone' : ∀ {debt : Debt sig} {t : Call}, t.feeds = true →
      ¬∃ d, debt.OwedBy (w.devices d) t := fun ht ⟨d, howed⟩ =>
    hdone d _ ht (pending_of_owedBy howed)
  have hshares : ∀ b, w.server.shares u b ↔
      b = u ∨ w.server.present ⟨.userFollowing u, b⟩ = true := fun b => by
    rw [(h.settled hdone u b).edges]
    exact or_congr_left eq_comm
  constructor
  · intro hp
    obtain ⟨data, hget⟩ := Option.isSome_iff_exists.mp hp
    have hposted : Posted w.log p := (hsound.docs _ _ hget).1
    obtain ⟨b, ho⟩ := h.upkeep.owned p hposted
    have hpost : PostOf w.log p b := ⟨ho, hposted, hkept⟩
    have hthere := (h.upkeep.stored p b hpost).resolve_right (hdone' feeds_uploadBy)
    exact ⟨b, hsound.owns_of_owner ho hthere,
      (hshares b).mp ((h.settled hdone u b).belongs p hpost hp)⟩
  · rintro ⟨b, howns, hfollows⟩
    have ho := hsound.owner_of_owns howns
    obtain ⟨data, hget, -⟩ := howns
    have hpost : PostOf w.log p b := ⟨ho, ((hsound.docs _ _ hget).2 rfl).posted, hkept⟩
    exact ((h.settled hdone u b).shared p hpost ((hshares b).mpr hfollows)).resolve_right
      (hdone' feeds_uploadBy)

theorem join_of_run (hrun : Run Apart emptyWorld w)
    (hdone : ∀ d t, t.feeds = true → ¬Pending (w.devices d) t) (u : Uid) (p : DocId) :
    w.server.present ⟨.userFeed u, p⟩ = true ∧ ¬Removed w.log p ↔
      ∃ b, w.server.owns b p ∧ (b = u ∨ w.server.present ⟨.userFollowing u, b⟩ = true) := by
  have hfeed := fun hkept => (maintained_of_run hrun).feed hdone u (p := p) hkept
  refine ⟨fun ⟨hp, hkept⟩ => (hfeed hkept).mp hp, fun h => ?_⟩
  have hkept : ¬Removed w.log p := fun hgone => by
    obtain ⟨b, ⟨data, hget, -⟩, -⟩ := h
    rw [absent_of_removed hrun hgone] at hget
    cases hget
  exact ⟨(hfeed hkept).mpr h, hkept⟩

/-- Where no upload, follow or unfollow is outstanding, a feed holds, but for
posts that were removed, the posts of its owner and of everyone its owner
follows, as long as calls that clash are kept apart. -/
theorem feed_joined (hrun : Run Apart emptyWorld w)
    (hdone : ∀ d t, t.feeds = true → ¬Pending (w.devices d) t) (u : Uid) (p : DocId) :
    w.server.present ⟨.userFeed u, p⟩ = true ∧ ¬Removed w.log p ↔
      ∃ b, w.server.owns b p ∧ (b = u ∨ w.server.present ⟨.userFollowing u, b⟩ = true) :=
  join_of_run hrun hdone u p

/-- Where nothing is outstanding and no post was removed, a feed holds the
posts of its owner and of everyone its owner follows and no others, as long
as calls that clash are kept apart. -/
theorem feeds_of_run (hrun : Run Apart emptyWorld w) (hidle : w.Idle)
    (hkept : ∀ p, ¬Removed w.log p) (u : Uid) :
    {p | w.server.present ⟨.userFeed u, p⟩ = true} =
      {p | w.server.owns u p} ∪
        {p | ∃ b, w.server.present ⟨.userFollowing u, b⟩ = true ∧ w.server.owns b p} := by
  have hdone : ∀ d t, t.feeds = true → ¬Pending (w.devices d) t := fun d t _ hp =>
    not_pending_of_idle (hidle d) hp
  ext p
  have hjoin := join_of_run hrun hdone u p
  rw [and_iff_left (hkept p)] at hjoin
  rw [Set.mem_ofPred_eq, hjoin]
  constructor
  · rintro ⟨b, howns, rfl | hfollows⟩
    · exact Or.inl howns
    · exact Or.inr ⟨b, hfollows, howns⟩
  · rintro (howns | ⟨b, hfollows, howns⟩)
    · exact ⟨u, howns, Or.inl rfl⟩
    · exact ⟨b, howns, Or.inr hfollows⟩

end

/-! ## One after the other, and both at once -/

/-- Alice has uploaded a post; Bob, on the same device, follows her. -/
def aliceFollowed : World village Unit :=
  emptyWorld
    |> smooth.perform () (.signUp "alice@dog.kr" "secret" "Alice" "alice" ⟨some []⟩) 100
    |> smooth.perform () (.didFinishPicking ⟨some []⟩) 100
    |> smooth.perform () (.tapDone 0 "walk") 100
    |> smooth.perform () .logout 100
    |> smooth.perform () (.signUp "bob@dog.kr" "secret" "Bob" "bob" ⟨some []⟩) 100
    |> smooth.perform () (.searchDidLoad 1) 100
    |> smooth.perform () (.searchSelectUser 1 0) 100
    |> smooth.perform () (.profileHeader 2) 100
    |> smooth.perform () (.tapActionButton 2) 100

/-- Nothing fails, nobody follows from a notification, and everyone stays
signed in while a call is outstanding. -/
def inScope {D : Type} (devices : List D) (w : World village D) (e : Event village D) : Bool :=
  devices.all (fun d => (w.devices d).tags.all fun t =>
    !Call.feeds t || App.currentUser (w.devices d).loc == Call.actor t) &&
    match e with
    | .act _ (.tapFollow _ _) => false
    | .commit _ fail => Option.isNone fail
    | .answer _ _ (.fail _) | .notify _ _ (.fail _) => false
    | _ => true

theorem scope_of_inScope {D : Type} {devices : List D} {w : World village D}
    {e : Event village D} (hall : ∀ d, d ∈ devices) (h : inScope devices w e = true) :
    Scope w e := by
  simp only [inScope, Bool.and_eq_true, List.all_eq_true, Bool.or_eq_true, Bool.not_eq_true',
    beq_iff_eq] at h
  obtain ⟨hsigned, h⟩ := h
  refine ⟨?_, ?_, fun d t ht hfeeds => (hsigned d (hall d) t ht).resolve_left (by simp [hfeeds])⟩
  · rintro d a rfl i c rfl
    cases h
  · cases e with
    | commit d fail => simpa [NoFailure] using h
    | answer d i c => rintro err rfl; cases h
    | notify d i c => rintro err rfl; cases h
    | _ => trivial

/-- Nobody uploads or follows while an upload or a follow is outstanding. -/
def oneAtATime (w : World village Unit) (e : Event village Unit) : Bool :=
  inScope [()] w e &&
    match e with
    | .act _ _ => (w.devices ()).tags.all fun t => !Call.feeds t
    | _ => true

theorem Clash.feeds {t t' : Call} (h : Clash t t') : t'.feeds = true := by
  cases h with
  | share | turn => exact feeds_edgeBy
  | join => exact feeds_uploadBy

theorem apart_of_oneAtATime {w : World village Unit} {e : Event village Unit}
    (h : oneAtATime w e = true) : Apart w e := by
  obtain ⟨hscope, h⟩ := Bool.and_eq_true_iff.mp h
  refine ⟨scope_of_inScope (fun _ => List.mem_singleton_self _) hscope, ?_⟩
  rintro d a rfl d' t ht hc
  have hno := List.all_eq_true.mp h t ht
  rw [hc.feeds] at hno
  cases hno

theorem aliceFollowed_apart : Run Apart emptyWorld aliceFollowed := by
  unfold aliceFollowed
  iterate 9
    refine Policy.run_checks (fun _ _ => apart_of_oneAtATime) (by decide) ?_
  exact .refl

theorem aliceFollowed_idle : (aliceFollowed.devices ()).idle = true := by decide

theorem feed_joined_aliceFollowed :
    aliceFollowed.server.present ⟨.userFeed "n6", "n3"⟩ = true ∧
        ¬Removed aliceFollowed.log "n3" ↔
      ∃ b, aliceFollowed.server.owns b "n3" ∧
        (b = "n6" ∨ aliceFollowed.server.present ⟨.userFollowing "n6", b⟩ = true) := by
  refine feed_joined ?_ (fun d t _ hp => ?_) "n6" "n3"
  · exact aliceFollowed_apart
  · exact not_pending_of_idle aliceFollowed_idle hp

/-- A deletion of a post that was carried out. -/
def removesPost : Obs sig → Bool
  | .wrote (.delete ⟨.posts, _⟩) none => true
  | _ => false

theorem feeds_of_run_aliceFollowed :
    {p | aliceFollowed.server.present ⟨.userFeed "n6", p⟩ = true} =
      {p | aliceFollowed.server.owns "n6" p} ∪
        {p | ∃ b, aliceFollowed.server.present ⟨.userFollowing "n6", b⟩ = true ∧
          aliceFollowed.server.owns b p} := by
  refine feeds_of_run aliceFollowed_apart (fun _ => aliceFollowed_idle) (fun p hp => ?_) "n6"
  obtain ⟨x, hx, ho⟩ := hp
  have hnone : aliceFollowed.log.all (fun x => !removesPost x.obs) = true := by decide
  have hx := List.all_eq_true.mp hnone x hx
  rw [ho] at hx
  cases hx

example : aliceFollowed.server.present ⟨.userFeed "n6", "n3"⟩ = true := by decide

/-- Alice has picked a photo, and Bob, on another device, has her profile open. -/
def bothReady : World village Bool :=
  emptyWorld
    |> smooth.perform false (.signUp "alice@dog.kr" "secret" "Alice" "alice" ⟨some []⟩) 100
    |> smooth.perform false (.didFinishPicking ⟨some []⟩) 100
    |> smooth.perform true (.signUp "bob@dog.kr" "secret" "Bob" "bob" ⟨some []⟩) 100
    |> smooth.perform true (.searchDidLoad 0) 100
    |> smooth.perform true (.searchSelectUser 0 0) 100
    |> smooth.perform true (.profileHeader 1) 100

theorem scope_of_both (w : World village Bool) (e : Event village Bool)
    (h : inScope [false, true] w e = true) : Scope w e := scope_of_inScope (by decide) h

theorem bothReady_reached : Run Scope emptyWorld bothReady := by
  unfold bothReady
  iterate 6
    refine Policy.run_checks scope_of_both (by decide) ?_
  exact .refl

/-- Her upload has sent the post and asked for her followers. -/
def uploading : World village Bool := smooth.perform false (.tapDone 0 "walk") 16 bothReady

/-- The followers are read before the post is written. -/
def followersRead : World village Bool := (step uploading (.answer false 0 .ok)).getD uploading

/-- Bob follows her now; then her upload goes on. -/
def followedMeanwhile : World village Bool :=
  followersRead
    |> smooth.perform true (.tapActionButton 1) 100
    |> smooth.drain false 100

/-- Everyone has stayed signed in and nothing is outstanding; Bob follows
Alice, and her post is not in his feed. -/
theorem feed_misses_post : Run Scope emptyWorld followedMeanwhile ∧ followedMeanwhile.Idle ∧
    followedMeanwhile.server.owns "n1" "n6" ∧
    followedMeanwhile.server.present ⟨.userFollowing "n3", "n1"⟩ = true ∧
    followedMeanwhile.server.present ⟨.userFeed "n3", "n6"⟩ = false := by
  have hidle : ∀ d, (followedMeanwhile.devices d).idle = true := by decide
  refine ⟨?_, hidle, ⟨_, rfl, by decide⟩, by decide, by decide⟩
  have huploading : Run Scope emptyWorld uploading :=
    Policy.run_checks scope_of_both (by decide) bothReady_reached
  have hread : step uploading (.answer false 0 .ok) = some followersRead :=
    step_getD (by decide)
  have hthere : Run Scope emptyWorld followersRead :=
    .step huploading (scope_of_both _ _ (by decide)) hread
  exact Policy.run_checked scope_of_both (by decide)
    (Policy.run_checks scope_of_both (by decide) hthere)

theorem owns_unique {srv : Server} {p : DocId} {b b' : Uid} (h : srv.owns b p)
    (h' : srv.owns b' p) : b = b' := by
  obtain ⟨data, hget, hown⟩ := h
  obtain ⟨data', hget', hown'⟩ := h'
  rw [hget] at hget'
  cases hget'
  rw [hown] at hown'
  cases hown'
  rfl

/-- Bob has followed Alice before her upload asks for her followers. -/
def uploadingToBob : World village Bool :=
  bothReady
    |> smooth.perform true (.tapActionButton 1) 100
    |> smooth.perform true (.profileHeader 1) 100
    |> smooth.perform false (.tapDone 0 "walk") 16

/-- Her followers are read, Bob among them. -/
def bobRead : World village Bool := (step uploadingToBob (.answer false 0 .ok)).getD uploadingToBob

/-- Bob no longer follows her; then her upload goes on. -/
def unfollowedMeanwhile : World village Bool :=
  bobRead
    |> smooth.perform true (.tapActionButton 1) 100
    |> smooth.drain false 100

theorem unfollowedMeanwhile_reached : Run Scope emptyWorld unfollowedMeanwhile := by
  have huploading : Run Scope emptyWorld uploadingToBob := by
    unfold uploadingToBob
    iterate 3
      refine Policy.run_checks scope_of_both (by decide) ?_
    exact bothReady_reached
  have hread : step uploadingToBob (.answer false 0 .ok) = some bobRead :=
    step_getD (by decide)
  have hthere : Run Scope emptyWorld bobRead :=
    .step huploading (scope_of_both _ _ (by decide)) hread
  exact Policy.run_checked scope_of_both (by decide)
    (Policy.run_checks scope_of_both (by decide) hthere)

/-- Everyone has stayed signed in and nothing is outstanding; Bob follows
nobody, and Alice's post is in his feed. -/
theorem feed_keeps_post : Run Scope emptyWorld unfollowedMeanwhile ∧ unfollowedMeanwhile.Idle ∧
    {p | unfollowedMeanwhile.server.present ⟨.userFeed "n3", p⟩ = true} ≠
      {p | unfollowedMeanwhile.server.owns "n3" p} ∪
        {p | ∃ b, unfollowedMeanwhile.server.present ⟨.userFollowing "n3", b⟩ = true ∧
          unfollowedMeanwhile.server.owns b p} := by
  have hidle : ∀ d, (unfollowedMeanwhile.devices d).idle = true := by decide
  refine ⟨unfollowedMeanwhile_reached, hidle, fun heq => ?_⟩
  have hfeed : unfollowedMeanwhile.server.present ⟨.userFeed "n3", "n7"⟩ = true := by decide
  have halice : unfollowedMeanwhile.server.owns "n1" "n7" := ⟨_, rfl, by decide⟩
  have hnobody : unfollowedMeanwhile.server.present ⟨.userFollowing "n3", "n1"⟩ = false := by
    decide
  have hmem : "n7" ∈ {p | unfollowedMeanwhile.server.present ⟨.userFeed "n3", p⟩ = true} := hfeed
  rw [heq] at hmem
  rcases hmem with howns | ⟨b, hfollows, howns⟩
  · exact absurd (owns_unique howns halice) (by decide)
  · rw [owns_unique howns halice, hnobody] at hfollows
    cases hfollows

end DogVillage
