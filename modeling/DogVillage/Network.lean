import DogVillage.Feeds
import DogVillage.LastWord
import DogVillage.Records

/-!
# The village its users mean

What the app is for, in its own terms: posts have owners, accounts follow
each other and like posts, and everybody reads the posts of those they
follow. A `Network` has no feeds, no second copies and no calls under way;
the log of a run says which deeds were done to it in which order. As long
as calls that clash do not overlap, the store shows this network whenever
nothing is outstanding, feeds included.
-/

namespace DogVillage

open Async

/-! ## Networks -/

structure Network where
  owner : DocId → Option Uid := fun _ => none
  follows : Uid → Uid → Bool := fun _ _ => false
  likes : Uid → DocId → Bool := fun _ _ => false

inductive Deed
  | post (b : Uid) (p : DocId)
  | remove (p : DocId)
  | follow (v b : Uid)
  | unfollow (v b : Uid)
  | like (u : Uid) (p : DocId)
  | unlike (u : Uid) (p : DocId)
deriving DecidableEq, Repr

namespace Network

def setOwner (n : Network) (p : DocId) (x : Option Uid) : Network :=
  { n with owner := Function.update n.owner p x }

def setFollows (n : Network) (v b : Uid) (x : Bool) : Network :=
  { n with follows := fun v' b' => if v' = v ∧ b' = b then x else n.follows v' b' }

def setLikes (n : Network) (u : Uid) (p : DocId) (x : Bool) : Network :=
  { n with likes := fun u' p' => if u' = u ∧ p' = p then x else n.likes u' p' }

def after (n : Network) : Deed → Network
  | .post b p => n.setOwner p (some b)
  | .remove p => n.setOwner p none
  | .follow v b => n.setFollows v b true
  | .unfollow v b => n.setFollows v b false
  | .like u p => n.setLikes u p true
  | .unlike u p => n.setLikes u p false

/-- `u` reads his own posts and those of everyone he follows. -/
def feed (n : Network) (u : Uid) (p : DocId) : Bool :=
  (n.owner p).any fun b => b = u || n.follows u b

end Network

/-- The deed a call stands for. An unlike does nothing if the count its copy
shows is not positive. -/
def Call.deed : Call → Option Deed
  | ⟨some v, .follow b⟩ => some (.follow v b)
  | ⟨some v, .unfollow b⟩ => some (.unfollow v b)
  | ⟨some u, .like post⟩ => some (.like u post.postId)
  | ⟨some u, .unlike post⟩ => if post.likes > 0 then some (.unlike u post.postId) else none
  | _ => none

/-- The deed an entry of the log stands for. A post is there as long as its
document is; everything else is done once it is asked for. -/
def deed {D : Type} (x : Entry village D) : Option Deed :=
  match x.obs with
  | .acted => x.tag.deed
  | .wrote (.setData ⟨.posts, p⟩ _) none => x.tag.actor.map (.post · p)
  | .wrote (.delete ⟨.posts, p⟩) none => some (.remove p)
  | _ => none

/-- The network after everything in the log, the newest entry first. -/
def network {D : Type} : Log D → Network
  | [] => {}
  | x :: log => (deed x).elim (network log) (network log).after

/-- The documents show the network; a feed shows the posts that are there. -/
structure Shows (srv : Server) (n : Network) : Prop where
  posts : ∀ p b, srv.owns b p ↔ n.owner p = some b
  following : ∀ v b, srv.present ⟨.userFollowing v, b⟩ = n.follows v b
  followers : ∀ v b, srv.present ⟨.userFollowers b, v⟩ = n.follows v b
  postLikes : ∀ u p, srv.present ⟨.postLikes p, u⟩ = n.likes u p
  userLikes : ∀ u p, srv.present ⟨.userLikes u, p⟩ = n.likes u p
  feeds : ∀ u p, (srv.present ⟨.userFeed u, p⟩ && srv.present ⟨.posts, p⟩) = n.feed u p

/-! ## The network of a log -/

section

variable {D : Type} {log : Log D} {v b u : Uid} {p : DocId}

theorem wanted_cons {K : Type} [DecidableEq K] {m : Mirror K} {x : Entry village D} {k : K} :
    m.wanted (x :: log) k = ((m.marker Call.wants).given k x).getD (m.wanted log k) := by
  simp only [Mirror.wanted, Marker.last, List.findSome?_cons]
  cases (m.marker Call.wants).given k x <;> rfl

/-- What is written follows nobody and likes nothing. -/
theorem after_wrote (d : D) (t : Call) (wr : Write) (res : Option FIRError) (n : Network) :
    ((deed ⟨d, t, .wrote wr res⟩).elim n n.after).follows = n.follows ∧
      ((deed ⟨d, t, .wrote wr res⟩).elim n n.after).likes = n.likes := by
  simp only [deed]
  split
  · next h => cases h
  · cases t.actor <;> exact ⟨rfl, rfl⟩
  · exact ⟨rfl, rfl⟩
  · exact ⟨rfl, rfl⟩

/-- What is asked for neither makes nor removes a post. -/
theorem after_acted (t : Call) (n : Network) : (t.deed.elim n n.after).owner = n.owner := by
  unfold Call.deed
  split
  · rfl
  · rfl
  · rfl
  · split <;> rfl
  · rfl

theorem deed_refused (d : D) (t : Call) (wr : Write) (err : FIRError) :
    deed ⟨d, t, .wrote wr (some err)⟩ = none := by simp only [deed]

/-- A write to anything but the post leaves its owner alone. -/
theorem owner_frame (d : D) (t : Call) {wr : Write} (n : Network) (h : wr.ref ≠ ⟨.posts, p⟩) :
    ((deed ⟨d, t, .wrote wr none⟩).elim n n.after).owner p = n.owner p := by
  have hne : ∀ {p'}, (⟨.posts, p'⟩ : Ref Collection) = wr.ref → p ≠ p' := by
    rintro p' hr rfl
    exact h hr.symm
  simp only [deed]
  split
  · next h' => cases h'
  · next h' =>
      cases h'
      cases t.actor with
      | none => rfl
      | some a => exact Function.update_of_ne (hne rfl) _ _
  · next h' =>
      cases h'
      exact Function.update_of_ne (hne rfl) _ _
  · rfl

theorem deed_own {x : Entry village D} (h : x.obs.isOwn = true) : deed x = none := by
  obtain ⟨d, t, o⟩ := x
  cases o <;> first | rfl | cases h

theorem network_own {l : Log D} (h : ∀ x ∈ l, x.obs.isOwn = true) :
    network (l ++ log) = network log := by
  induction l with
  | nil => rfl
  | cons x l ih =>
      rw [List.cons_append, network, deed_own (h x List.mem_cons_self)]
      exact ih fun y hy => h y (List.mem_cons_of_mem _ hy)

theorem follows_after {x : Entry village D} {n : Network} :
    ((deed x).elim n n.after).follows v b =
      ((edges.marker Call.wants).given (v, b) x).getD (n.follows v b) := by
  obtain ⟨d, ⟨actor, op⟩, o⟩ := x
  cases o with
  | acted =>
      cases actor with
      | none => cases op <;> rfl
      | some a =>
          cases op with
          | follow c | unfollow c =>
              by_cases h : v = a ∧ b = c
              · obtain ⟨rfl, rfl⟩ := h
                simp [deed, Call.deed, Network.after, Network.setFollows, Marker.given,
                  Mirror.marker, edges, Call.wants]
              · have hne : (a, c) ≠ (v, b) := fun h' => h (by cases h'; exact ⟨rfl, rfl⟩)
                simp only [Marker.given, Mirror.marker, edges, Option.map_some, Option.bind_some,
                  if_neg hne]
                exact if_neg h
          | unlike post =>
              simp only [deed, Call.deed]
              split <;> rfl
          | _ => rfl
  | wrote wr res => rw [(after_wrote d ⟨actor, op⟩ wr res n).1]; rfl
  | _ => rfl

theorem likes_after {x : Entry village D} {n : Network} :
    ((deed x).elim n n.after).likes u p =
      ((likeSides.marker Call.wants).given (u, p) x).getD (n.likes u p) := by
  obtain ⟨d, ⟨actor, op⟩, o⟩ := x
  cases o with
  | acted =>
      cases actor with
      | none => cases op <;> rfl
      | some a =>
          cases op with
          | like post =>
              by_cases h : u = a ∧ p = post.postId
              · obtain ⟨rfl, rfl⟩ := h
                simp [deed, Call.deed, Network.after, Network.setLikes, Marker.given,
                  Mirror.marker, likeSides, Call.wants]
              · have hne : (a, post.postId) ≠ (u, p) := fun h' => h (by cases h'; exact ⟨rfl, rfl⟩)
                simp only [Marker.given, Mirror.marker, likeSides, Option.map_some,
                  Option.bind_some, if_neg hne]
                exact if_neg h
          | unlike post =>
              by_cases hpos : post.likes > 0
              · by_cases h : u = a ∧ p = post.postId
                · obtain ⟨rfl, rfl⟩ := h
                  simp [deed, Call.deed, Network.after, Network.setLikes, Marker.given,
                    Mirror.marker, likeSides, Call.wants, hpos]
                · have hne : (a, post.postId) ≠ (u, p) :=
                    fun h' => h (by cases h'; exact ⟨rfl, rfl⟩)
                  simp only [deed, Call.deed, Marker.given, Mirror.marker, likeSides, if_pos hpos,
                    Option.map_some, Option.bind_some, if_neg hne]
                  exact if_neg h
              · simp [deed, Call.deed, Marker.given, Mirror.marker, likeSides, hpos]
          | _ => rfl
  | wrote wr res => rw [(after_wrote d ⟨actor, op⟩ wr res n).2]; rfl
  | _ => rfl

theorem follows_network : (network log).follows v b = edges.wanted log (v, b) := by
  induction log with
  | nil => rfl
  | cons x log ih => rw [wanted_cons, ← ih, network, follows_after]

theorem likes_network : (network log).likes u p = likeSides.wanted log (u, p) := by
  induction log with
  | nil => rfl
  | cons x log ih => rw [wanted_cons, ← ih, network, likes_after]

end

/-! ## Runs -/

section

variable {D : Type} [DecidableEq D] {w : World village D} {e : Event village D} {b : Uid}
  {p : DocId}

/-- No call begins while one it clashes with is outstanding, be it about a
follow, a feed or a like. -/
structure InOrder (w : World village D) (e : Event village D) : Prop extends Apart w e where
  likes : ∀ d a k, e = .act d a → likeSides.key (village.ui a (w.devices d).loc).1 = some k →
    ∀ d' t, w.Active d' t → likeSides.key t = some k →
      t.wants = (village.ui a (w.devices d).loc).1.wants

omit [DecidableEq D] in
theorem not_failed (hok : NoFailure w e) {d : D} {error : FIRError}
    (he : e = .commit d (some error)) : False := by
  subst he
  cases hok

omit [DecidableEq D] in
/-- A call about a pair of accounts. -/
theorem edgeBy_of_key {t : Call} {v : Uid} (h : edges.key t = some (v, b)) :
    t = edgeBy (!t.wants) v b := by
  obtain ⟨_ | a, op⟩ := t
  · cases h
  · cases op <;> cases h <;> rfl

omit [DecidableEq D] in
theorem InOrder.edges (hok : InOrder w e) : edges.InTurn Call.wants w e where
  turn d a k he hk d' t ht hkt := by
    by_contra hne
    have hnot := hok.apart d a he d' t ht
    rw [edgeBy_of_key hk, edgeBy_of_key hkt, Bool.eq_not_of_ne hne] at hnot
    exact hnot .turn
  accepted _ _ _ _ he _ := (not_failed hok.noFailure he).elim

omit [DecidableEq D] in
theorem InOrder.likeSides (hok : InOrder w e) : likeSides.InTurn Call.wants w e where
  turn := hok.likes
  accepted _ _ _ _ he _ := (not_failed hok.noFailure he).elim

/-- A step carries out a write, or leaves the posts and their owners alone. -/
theorem owner_step (hs : Stepped w e w') :
    (w'.server.docs = w.server.docs ∧ (network w'.log).owner = (network w.log).owner) ∨
      ∃ d m ms, (w.devices d).writes = m :: ms ∧
        w'.log = ⟨d, m.tag, .wrote m.write none⟩ :: w.log ∧
        ∀ r, w'.server.docs.get r = if r = m.write.ref then
          Documents.written m.write (w.server.docs.get r) else w.server.docs.get r := by
  by_cases he : ∃ d fail, e = .commit d fail
  · obtain ⟨d, fail, rfl⟩ := he
    cases hs with
    | @commit _ _ m ms hw =>
        cases hr : (settle village m.write fail w.server).2 with
        | some err =>
            refine Or.inl ⟨docs_refused hr, ?_⟩
            show ((deed (D := D) ⟨d, m.tag, .wrote m.write (some err)⟩).elim (network w.log)
              (network w.log).after).owner = _
            rw [deed_refused d m.tag m.write err]
            rfl
        | none =>
            obtain ⟨rfl, docs, ha, hset⟩ := docs_accepted hr
            refine Or.inr ⟨d, m, ms, hw, rfl, fun r => ?_⟩
            rw [hset]
            exact Documents.get_apply ha r
  · refine Or.inl ⟨?_, ?_⟩
    · cases docsStep hs with
      | same hdocs => exact hdocs
      | wrote he' => exact absurd ⟨_, _, he'⟩ he
    · cases hs.logs with
      | acted _ hlog => rw [hlog, network]; exact after_acted _ _
      | answered _ hlog => rw [hlog]; rfl
      | wrote he' => exact absurd ⟨_, _, he'⟩ he
      | own hlog hl => rw [hlog, network_own hl]

omit [DecidableEq D] in
/-- A write changes the owner of a post as its document shows. -/
theorem owner_written {m : Sent village} {d : D} {n : Network} {srv : Server}
    (hsound : Sound False w) (hok : WriteOk False w.log m.tag m.write)
    (hmay : MayWrite w.log m.tag m.write)
    (hget : srv.docs.get ⟨.posts, p⟩ = if ⟨.posts, p⟩ = m.write.ref then
      Documents.written m.write (w.server.docs.get ⟨.posts, p⟩) else w.server.docs.get ⟨.posts, p⟩)
    (hn : w.server.owns b p ↔ n.owner p = some b) :
    srv.owns b p ↔ ((deed ⟨d, m.tag, .wrote m.write none⟩).elim n n.after).owner p = some b := by
  by_cases hr : (⟨.posts, p⟩ : Ref Collection) = m.write.ref
  · rw [if_pos hr] at hget
    cases hwr : m.write with
    | setData r data =>
        rw [hwr] at hr hok hmay hget
        cases hr
        obtain ⟨⟨⟨u, ⟨hl, -⟩, ho⟩, -⟩, hop⟩ := hok
        have hactor : m.tag.actor = some u := by
          rcases hmay.entitled with ⟨-, v, hv, hov⟩ | ⟨v, post, -, hlike⟩ | ⟨hrem, -⟩
          · rw [hv, hsound.owner_unique hov ho]
          · rcases hlike with h | h <;> rw [h] at hop <;> cases hop
          · rw [hrem] at hop
            cases hop
        have hdeed : deed (D := D) ⟨d, m.tag, .wrote (.setData ⟨.posts, p⟩ data) none⟩ =
            some (.post u p) := congrArg (Option.map (Deed.post · p)) hactor
        have hset : (n.setOwner p (some u)).owner p = some b ↔ u = b := by
          simp [Network.setOwner]
        rw [hdeed]
        refine Iff.trans ?_ hset.symm
        constructor
        · rintro ⟨x, hx, hb⟩
          cases hget.symm.trans hx
          rw [hl] at hb
          cases hb
          rfl
        · rintro rfl
          exact ⟨data, hget, hl⟩
    | updateData r data =>
        rw [hwr] at hr hok hget
        cases hr
        obtain ⟨k, rfl, -, -⟩ := hok
        refine Iff.trans ?_ hn
        unfold Server.owns
        rw [hget]
        simp [Documents.written, List.lookup_cons]
    | delete r =>
        rw [hwr] at hr hget
        cases hr
        refine iff_of_false ?_ ?_
        · rintro ⟨x, hx, -⟩
          cases hget.symm.trans hx
        · simp [deed, Network.after, Network.setOwner]
  · rw [if_neg hr] at hget
    rw [owner_frame d m.tag n (Ne.symm hr), ← hn]
    unfold Server.owns
    rw [hget]

/-- Whatever fails and however calls overlap, the posts are those of the
network. -/
theorem owner_shown {ok : World village D → Event village D → Prop}
    (hrun : Run ok emptyWorld w) : w.server.owns b p ↔ (network w.log).owner p = some b := by
  induction hrun with
  | refl => exact ⟨fun ⟨_, h, _⟩ => (by cases h), fun h => by cases h⟩
  | @step w w' e hrun _ hstep ih =>
      rcases owner_step (stepped_of_step hstep) with ⟨hdocs, howner⟩ | ⟨d, m, ms, hw, hlog, hget⟩
      · rw [howner, ← ih]
        unfold Server.owns
        rw [hdocs]
      · have hm : m ∈ (w.devices d).writes := by rw [hw]; exact List.mem_cons_self
        have hsound := sound_of_run hrun
        rw [hlog]
        exact owner_written hsound ((hsound.code.held d).writes m hm).1 (mayWrite_of_sent hrun hm)
          (hget _) ih

theorem shown_at_rest (hrun : Run InOrder emptyWorld w) (hidle : w.Idle) :
    Shows w.server (network w.log) := by
  have hedges := fun v b => Mirror.marked_of_idle
    (Mirror.kept_of_run edges_signs edges_owes (hrun.mono fun _ _ h => h.edges)) hidle (v, b) rfl
  have hlikes := fun u p => Mirror.marked_of_idle (Mirror.kept_of_run likeSides_signs
    likeSides_owes (hrun.mono fun _ _ h => h.likeSides)) hidle (u, p) rfl
  have hfollows : ∀ v b, w.server.present ⟨.userFollowing v, b⟩ = (network w.log).follows v b :=
    fun v b => (hedges v b).1.trans follows_network.symm
  refine ⟨fun p b => owner_shown hrun, hfollows,
    fun v b => (hedges v b).2.trans follows_network.symm,
    fun u p => (hlikes u p).1.trans likes_network.symm,
    fun u p => (hlikes u p).2.trans likes_network.symm, fun u p => Bool.eq_iff_iff.mpr ?_⟩
  have hjoin := join_of_run (hrun.mono fun _ _ hok => hok.toApart)
    (fun d t _ => not_pending_of_idle (hidle d)) u p
  have hread : (network w.log).feed u p = true ↔
      ∃ b, w.server.owns b p ∧ (b = u ∨ w.server.present ⟨.userFollowing u, b⟩ = true) := by
    simp only [Network.feed, Option.any_eq_true, Bool.or_eq_true, decide_eq_true_eq,
      owner_shown hrun, hfollows]
  rw [hread, ← hjoin, Bool.and_eq_true]
  refine and_congr_right fun hp => ⟨fun hthere hgone => ?_, fun hkept => ?_⟩
  · obtain ⟨data, hget⟩ := Option.isSome_iff_exists.mp hthere
    cases (absent_of_removed hrun hgone).symm.trans hget
  · obtain ⟨b, ⟨data, hget, -⟩, -⟩ := hjoin.mp ⟨hp, hkept⟩
    exact congrArg Option.isSome hget

/-- Whenever nothing is outstanding the store shows the network that the deeds
of the run have made. -/
theorem shows_network (hrun : Run InOrder emptyWorld w) (hidle : w.Idle) :
    Shows w.server (network w.log) :=
  shown_at_rest hrun hidle

end

/-- Alice has posted, Bob follows her, and likes the post in his feed. -/
def bobLikes : World village Unit :=
  aliceFollowed
    |> smooth.perform () (.feedDidLoad 1) 100
    |> smooth.perform () (.feedCell 1 0 0) 100
    |> smooth.perform () (.tapLike 1 0) 100

/-- Then he removes it: nothing looks at whose post it is. -/
def bobRemoves : World village Unit :=
  bobLikes
    |> smooth.perform () (.tapRemove 1 0) 100
    |> smooth.perform () (.answerAlert 0 true) 100

/-- Nobody uploads, follows or likes while a call is outstanding. -/
def inOrder (w : World village Unit) (e : Event village Unit) : Bool :=
  oneAtATime w e &&
    match e with
    | .act _ _ => (w.devices ()).tags.all fun t => (likeSides.key t).isNone
    | _ => true

theorem inOrder_of {w : World village Unit} {e : Event village Unit} (h : inOrder w e = true) :
    InOrder w e := by
  obtain ⟨hone, h⟩ := Bool.and_eq_true_iff.mp h
  refine ⟨apart_of_oneAtATime hone, ?_⟩
  rintro d a k rfl - d' t ht hk
  have hno := List.all_eq_true.mp h t ht
  rw [hk] at hno
  cases hno

set_option maxRecDepth 1000 in
theorem shows_network_bobRemoves : Shows bobRemoves.server (network bobRemoves.log) := by
  refine shows_network ?_ fun _ => (by decide : (bobRemoves.devices ()).idle = true)
  unfold bobRemoves bobLikes aliceFollowed
  iterate 14 refine Policy.run_checks (fun _ _ => inOrder_of) (by decide) ?_
  exact .refl

example : (network bobLikes.log).feed "n6" "n3" = true ∧
    (network bobLikes.log).likes "n6" "n3" = true := by decide

/-- His feed still names the post. -/
example : (network bobRemoves.log).feed "n6" "n3" = false ∧
    bobRemoves.server.present ⟨.userFeed "n6", "n3"⟩ = true := by decide

end DogVillage
