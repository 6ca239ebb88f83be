import DogVillage.Async.LastCall
import DogVillage.Effects
import DogVillage.Fanouts
import DogVillage.LikeSides

/-!
# Who was asked last

What is kept twice is also as its account wanted it last: as long as no two
calls that want a pair otherwise overlap and no write to one of the two
documents fails, both are there if the last call about the pair puts them
there, and are not if it takes them away, once nothing is owed any more.
-/

namespace DogVillage

open Async

namespace Mirror

variable {K : Type} (m : Mirror K)

/-- The documents of a mirror as registers; `gives` says what a call does. -/
def marker (gives : Call → Bool) : Marker village K (Ref Collection) Bool where
  reads srv r := srv.present r
  puts wr := DocWrite.puts wr
  about t := (m.key t).map (·, gives t)
  of r := (m.originalKey r).or (m.copyKey r)

/-- No two calls that want a pair otherwise overlap, and no write to the
documents of a pair fails. -/
structure InTurn {D : Type} (gives : Call → Bool) (w : World village D) (e : Event village D) :
    Prop where
  turn : ∀ d a k, e = .act d a → m.key (village.ui a (w.devices d).loc).1 = some k →
    ∀ d' t, w.Active d' t → m.key t = some k →
      gives t = gives (village.ui a (w.devices d).loc).1
  accepted : ∀ d error n ns, e = .commit d (some error) → (w.devices d).writes = n :: ns →
    m.originalKey n.write.ref = none ∧ m.copyKey n.write.ref = none

variable {m} {gives : Call → Bool} {r : Ref Collection} {k : K} {t : Call} {x : Bool}

theorem about_eq : (m.marker gives).about t = some (k, x) ↔ m.key t = some k ∧ gives t = x := by
  simp only [marker, Option.map_eq_some_iff, Prod.mk.injEq]
  exact ⟨fun ⟨_, hk, rfl, hx⟩ => ⟨hk, hx⟩, fun ⟨hk, hx⟩ => ⟨k, hk, rfl, hx⟩⟩

theorem of_eq (h : (m.marker gives).of r = some k) : r = m.original k ∨ r = m.copy k := by
  rcases Option.or_eq_some_iff.mp h with hk | ⟨-, hk⟩
  · exact Or.inl (m.originalKey_eq.mp hk)
  · exact Or.inr (m.copyKey_eq.mp hk)

theorem of_original : (m.marker gives).of (m.original k) = some k := by
  simp [marker, m.originalKey_eq.mpr rfl]

variable (gives) in
/-- Code that writes in neither place. -/
theorem signed_of_touches {C : Collection → Prop} {b : Block} (h : Touches C b)
    (hC : ∀ r : Ref Collection, C r.collection → m.originalKey r = none ∧ m.copyKey r = none) :
    b.Writes ((m.marker gives).Signed t) := by
  refine h.mono fun wr hwr r k x hputs hof => ?_
  have hr : wr.ref = r := by cases wr <;> cases hputs <;> rfl
  obtain ⟨ho, hc⟩ := hC wr.ref hwr
  rw [hr] at ho hc
  simp [marker, ho, hc] at hof

/-- A mark by a call about the pair. -/
theorem signed_mark {gone : Bool} (hk : m.key t = some k) (hx : gives t = !gone)
    (hr : (m.marker gives).of r = some k) : (m.marker gives).Signed t (markWrite gone r) := by
  rintro r' k' x hputs hof
  obtain ⟨rfl, rfl⟩ := Prod.mk.inj (Option.some.inj ((puts_markWrite r).symm.trans hputs))
  rw [hr] at hof
  exact about_eq.mpr ⟨hk.trans hof, hx⟩

/-- An update leaves a document where it is. -/
theorem signed_update {data : Dictionary} : (m.marker gives).Signed t (.updateData r data) := by
  rintro r' k x ⟨⟩

variable {D : Type} [DecidableEq D] {w w' : World village D} {e : Event village D}

/-- A step carries out a write to the documents of a pair, or changes none. -/
theorem orderly (hok : m.InTurn gives w e) (hs : Stepped w e w')
    (hsigned : ∀ d, ∀ n ∈ (w.devices d).writes, (m.marker gives).Signed n.tag n.write)
    (howes : ∀ (a : Action) app k r, m.key ⟨app.currentUser, Action.op a app⟩ = some k →
      (m.marker gives).of r = some k →
      ((m.marker gives).debt r (gives ⟨app.currentUser, Action.op a app⟩)).Owes
        (a.block.start app)) : (m.marker gives).Orderly w e w' where
  act d a k x r _ hv hr := by
    obtain ⟨hk, rfl⟩ := about_eq.mp hv
    exact howes a _ k r hk hr
  turn d a k x he hv d' t x' ht hx' := by
    obtain ⟨hk, rfl⟩ := about_eq.mp hv
    obtain ⟨hk', rfl⟩ := about_eq.mp hx'
    exact hok.turn d a k he hk d' t ht hk'
  signed := hsigned
  paid d fail n ns r x he hw hputs hsome := by
    subst he
    cases hs with
    | commit hw' =>
        rw [hw] at hw'
        cases hw'
        refine (present_settle (r := r) fun b hb => ?_).trans ?_
        · cases fail with
          | none => rfl
          | some error =>
              have hr : n.write.ref = r := by
                cases hwr : n.write <;> rw [hwr] at hb <;> cases hb <;> rfl
              obtain ⟨ho, hc⟩ := hok.accepted d error n ns rfl hw
              rw [hr] at ho hc
              simp [marker, ho, hc] at hsome
        · rw [show DocWrite.puts n.write = some (r, x) from hputs]
          simp [Echo.valuesOf]
  frame r _ hnot := by
    cases presentStep hs r with
    | same h _ => exact h
    | put he hw hputs _ _ => exact absurd hputs (hnot _ _ _ _ _ he hw)

theorem kept_of_run [DecidableEq K]
    (hsigns : ∀ (a : Action) app, (a.block.start app).Writes
      ((m.marker gives).Signed ⟨app.currentUser, Action.op a app⟩))
    (howes : ∀ (a : Action) app k r, m.key ⟨app.currentUser, Action.op a app⟩ = some k →
      (m.marker gives).of r = some k →
      ((m.marker gives).debt r (gives ⟨app.currentUser, Action.op a app⟩)).Owes
        (a.block.start app))
    (hrun : Run (m.InTurn gives) emptyWorld w) : (m.marker gives).Kept false w := by
  induction hrun with
  | refl => exact .empty (fun _ _ => not_active_emptyWorld) rfl fun _ _ => rfl
  | @step w w' e hrun hok hstep ih =>
      have hs := stepped_of_step hstep
      refine ih.step (orderly hok hs (fun d n hn => ?_) howes) hs
      exact sent_of_run (W := (m.marker gives).Signed) (fun _ => ⟨rfl, rfl⟩)
        (fun a app => hsigns a app) hrun hn

end Mirror

/-- A call of this kind wants the pair it is about to be there. -/
def Call.wants (t : Call) : Bool :=
  match t.op with
  | .follow _ | .like _ => true
  | _ => false

/-! ## Follows -/

section

variable {v b : Uid} {r : Ref Collection}

theorem edges_of (h : (edges.marker Call.wants).of r = some (v, b)) :
    r = ⟨.userFollowing v, b⟩ ∨ r = ⟨.userFollowers b, v⟩ := Mirror.of_eq h

/-- Both marks of a follow or unfollow, whatever its completion does elsewhere. -/
theorem edges_signs_writes {gone : Bool} {completion : Completion}
    (h : ∀ error, Touches OffEdges (completion error)) :
    (edgeWrites gone v b completion).Writes
      ((edges.marker Call.wants).Signed (edgeBy gone v b)) := by
  have hk : edges.key (edgeBy gone v b) = some (v, b) := by cases gone <;> rfl
  have hx : (edgeBy gone v b).wants = !gone := by cases gone <;> rfl
  have hc := fun error =>
    Mirror.signed_of_touches Call.wants (t := edgeBy gone v b) (h error) edges_off
  have hfirst := Mirror.signed_mark (r := ⟨.userFollowing v, b⟩) hk hx rfl
  have hsecond := Mirror.signed_mark (r := ⟨.userFollowers b, v⟩) hk hx rfl
  cases gone <;> exact ⟨⟨hfirst, fun _ => ⟨hsecond, hc, trivial⟩, trivial⟩, trivial⟩

theorem edges_owes_writes {gone : Bool} {completion : Completion}
    (hr : (edges.marker Call.wants).of r = some (v, b)) :
    ((edges.marker Call.wants).debt r (!gone)).Owes (edgeWrites gone v b completion) := by
  rcases edges_of hr with rfl | rfl
  · cases gone <;> exact Or.inl (Or.inl rfl)
  · cases gone <;> exact Or.inl (Or.inr (Or.inl fun _ _ => Or.inl rfl))

theorem edges_signs (a : Action) (app : App) : (a.block.start app).Writes
    ((edges.marker Call.wants).Signed ⟨app.currentUser, a.op app⟩) := by
  have hfeed : ∀ u, OffEdges (.userFeed u) := fun u => ⟨by simp, by simp⟩
  have hnotif : ∀ u, OffEdges (.userNotifications u) := fun u => ⟨by simp, by simp⟩
  cases a with
  | tapActionButton i =>
      have htap := profileTap i app
      generalize (Action.tapActionButton i).op app = op at htap ⊢
      generalize (Action.tapActionButton i).block.start app = c at htap ⊢
      cases htap with
      | none => trivial
      | follow _ _ _ huid =>
          rw [huid]
          exact @edges_signs_writes _ _ false _ (touches_onFollow hfeed hnotif)
      | unfollow _ _ _ huid =>
          rw [huid]
          exact @edges_signs_writes _ _ true _ (touches_onUnfollow hfeed)
  | tapFollow i c =>
      have htap := notificationTap i c app
      generalize (Action.tapFollow i c).op app = op at htap ⊢
      generalize (Action.tapFollow i c).block.start app = c at htap ⊢
      cases htap with
      | none => trivial
      | dropped => trivial
      | follow _ huid =>
          rw [huid]
          exact @edges_signs_writes _ _ false _ touches_onTap
      | unfollow _ huid =>
          rw [huid]
          exact @edges_signs_writes _ _ true _ touches_onTap
  | _ =>
      refine Mirror.signed_of_touches _ (touches_action _ app) fun r hr => edges_off r ?_
      constructor <;> rintro u hu <;> rw [hu] at hr <;> exact hr

theorem edges_owes (a : Action) (app : App) (k : Uid × Uid) (r : Ref Collection)
    (hk : edges.key ⟨app.currentUser, a.op app⟩ = some k)
    (hr : (edges.marker Call.wants).of r = some k) :
    ((edges.marker Call.wants).debt r (Call.wants ⟨app.currentUser, a.op app⟩)).Owes
      (a.block.start app) := by
  have hs := a.starts app
  cases huser : app.currentUser with
  | none => rw [huser] at hk; cases hk
  | some uid =>
      rw [huser] at hk
      cases a with
      | tapActionButton i =>
          have htap := profileTap i app
          generalize (Action.tapActionButton i).op app = op at htap hk ⊢
          generalize (Action.tapActionButton i).block.start app = c at htap ⊢
          cases htap with
          | none h =>
              rcases h with rfl | h
              · cases hk
              · rw [huser] at h
                cases h
          | follow _ _ _ huid =>
              obtain rfl := Option.some.inj (huser.symm.trans huid)
              cases hk
              exact @edges_owes_writes _ _ _ false _ hr
          | unfollow _ _ _ huid =>
              obtain rfl := Option.some.inj (huser.symm.trans huid)
              cases hk
              exact @edges_owes_writes _ _ _ true _ hr
      | tapFollow i c =>
          have htap := notificationTap i c app
          generalize (Action.tapFollow i c).op app = op at htap hk ⊢
          generalize (Action.tapFollow i c).block.start app = c at htap ⊢
          cases htap with
          | none => cases hk
          | dropped h => rw [huser] at h; cases h
          | follow _ huid =>
              obtain rfl := Option.some.inj (huser.symm.trans huid)
              cases hk
              exact ⟨fun _ _ => trivial, @edges_owes_writes _ _ _ false _ hr⟩
          | unfollow _ huid =>
              obtain rfl := Option.some.inj (huser.symm.trans huid)
              cases hk
              exact ⟨fun _ _ => trivial, @edges_owes_writes _ _ _ true _ hr⟩
      | _ =>
          generalize Action.op _ app = op at hs hk
          cases hs <;> cases hk

end

/-! ## Likes -/

section

variable {u : Uid} {post : Post} {r : Ref Collection} {completion : Completion}

theorem likeSides_of {p : DocId} (h : (likeSides.marker Call.wants).of r = some (u, p)) :
    r = ⟨.postLikes p, u⟩ ∨ r = ⟨.userLikes u, p⟩ := Mirror.of_eq h

/-- Both marks of a like, whatever its completion does elsewhere. -/
theorem likeSides_signs_like (h : ∀ error, Touches OffLikes (completion error)) :
    (likeWrites post u completion).Writes
      ((likeSides.marker Call.wants).Signed ⟨some u, .like post⟩) := by
  have hc := fun error => Mirror.signed_of_touches Call.wants
    (t := ⟨some u, .like post⟩) (h error) likeSides_off
  have hmark := fun r hr => @Mirror.signed_mark _ likeSides Call.wants r (u, post.postId)
    ⟨some u, .like post⟩ false rfl rfl hr
  exact ⟨⟨Mirror.signed_update, fun _ => trivial, hmark ⟨.postLikes post.postId, u⟩ rfl,
    fun _ => ⟨hmark ⟨.userLikes u, post.postId⟩ rfl, hc, trivial⟩, trivial⟩, trivial⟩

theorem likeSides_signs_unlike (hpos : post.likes > 0)
    (h : ∀ error, Touches OffLikes (completion error)) :
    (unlikeWrites post u completion).Writes
      ((likeSides.marker Call.wants).Signed ⟨some u, .unlike post⟩) := by
  have hc := fun error => Mirror.signed_of_touches Call.wants
    (t := ⟨some u, .unlike post⟩) (h error) likeSides_off
  have hmark := fun r hr => @Mirror.signed_mark _ likeSides Call.wants r (u, post.postId)
    ⟨some u, .unlike post⟩ true (likeSides_key_unlike hpos) rfl hr
  exact ⟨⟨Mirror.signed_update, fun _ => trivial, hmark ⟨.postLikes post.postId, u⟩ rfl,
    fun _ => ⟨hmark ⟨.userLikes u, post.postId⟩ rfl, hc, trivial⟩, trivial⟩, trivial⟩

theorem likeSides_signs (a : Action) (app : App) : (a.block.start app).Writes
    ((likeSides.marker Call.wants).Signed ⟨app.currentUser, a.op app⟩) := by
  have hnotif : ∀ u, OffLikes (.userNotifications u) := fun u => ⟨by simp, by simp⟩
  cases a with
  | tapLike i c =>
      have htap := likeTap i c app
      generalize (Action.tapLike i c).op app = op at htap ⊢
      generalize (Action.tapLike i c).block.start app = b at htap ⊢
      cases htap with
      | none => trivial
      | dropped => trivial
      | like _ _ huid _ =>
          rw [huid]
          exact likeSides_signs_like (touches_onLike hnotif)
      | unlike _ _ huid _ hpos =>
          rw [huid]
          exact likeSides_signs_unlike hpos touches_onUnlike
  | _ =>
      refine Mirror.signed_of_touches _ (touches_action _ app) fun r hr => likeSides_off r ?_
      constructor <;> rintro x hx <;> rw [hx] at hr <;> exact hr

theorem likeSides_owes (a : Action) (app : App) (k : Uid × DocId) (r : Ref Collection)
    (hk : likeSides.key ⟨app.currentUser, a.op app⟩ = some k)
    (hr : (likeSides.marker Call.wants).of r = some k) :
    ((likeSides.marker Call.wants).debt r (Call.wants ⟨app.currentUser, a.op app⟩)).Owes
      (a.block.start app) := by
  have hs := a.starts app
  cases huser : app.currentUser with
  | none => rw [huser] at hk; cases hk
  | some uid =>
      rw [huser] at hk
      cases a with
      | tapLike i c =>
          have htap := likeTap i c app
          have hdid : ∀ post, (Action.tapLike i c).op app = .like post → post.didLike = false :=
            fun post h => didLike_of_op h
          generalize (Action.tapLike i c).op app = op at htap hk hdid ⊢
          generalize (Action.tapLike i c).block.start app = b at htap ⊢
          cases htap with
          | none => cases hk
          | @dropped _ post _ hop hguard =>
              obtain ⟨hlike, hnot⟩ := hguard.resolve_left (by rw [huser]; simp)
              rcases hop with rfl | rfl
              · rw [hdid post rfl] at hlike
                cases hlike
              · obtain ⟨hpos, -⟩ := Option.ite_none_right_eq_some.mp hk
                omega
          | like _ _ huid _ =>
              obtain rfl := Option.some.inj (huser.symm.trans huid)
              cases hk
              rcases likeSides_of hr with rfl | rfl
              · exact ⟨fun _ _ => trivial, Or.inl (Or.inr (Or.inr (Or.inl rfl)))⟩
              · exact ⟨fun _ _ => trivial,
                  Or.inl (Or.inr (Or.inr (Or.inr (Or.inl fun _ _ => Or.inl rfl))))⟩
          | unlike _ _ huid _ hpos =>
              obtain rfl := Option.some.inj (huser.symm.trans huid)
              rw [likeSides_key_unlike hpos] at hk
              cases hk
              rcases likeSides_of hr with rfl | rfl
              · exact ⟨fun _ _ => trivial, Or.inl (Or.inr (Or.inr (Or.inl rfl)))⟩
              · exact ⟨fun _ _ => trivial,
                  Or.inl (Or.inr (Or.inr (Or.inr (Or.inl fun _ _ => Or.inl rfl))))⟩
      | _ =>
          generalize Action.op _ app = op at hs hk
          cases hs <;> cases hk

end

/-! ## Runs -/

section

variable {K D : Type} [DecidableEq K] [DecidableEq D] {w : World village D}

/-- What the last call about the pair wants. -/
def Mirror.wanted (m : Mirror K) (log : Log D) (k : K) : Bool :=
  ((m.marker Call.wants).last log k).getD false

omit [DecidableEq D] in
theorem Mirror.marked_of_idle {m : Mirror K} (h : (m.marker Call.wants).Kept false w)
    (hidle : w.Idle) (k : K) (hcopy : (m.marker Call.wants).of (m.copy k) = some k) :
    w.server.present (m.original k) = m.wanted w.log k ∧
      w.server.present (m.copy k) = m.wanted w.log k := by
  have hshown : ∀ {r}, (m.marker Call.wants).of r = some k →
      w.server.present r = m.wanted w.log k := fun hr =>
    h.shown (fun d t _ _ => Debt.not_owedBy_of_idle (hidle d) t) hr
  exact ⟨hshown Mirror.of_original, hshown hcopy⟩

/-- At rest `v` follows `b` on both sides if a follow was the last call about
it, and on neither if an unfollow was, or none was made. -/
theorem follow_last_word (hrun : Run (edges.InTurn Call.wants) emptyWorld w) (hidle : w.Idle)
    (v b : Uid) :
    w.server.present ⟨.userFollowing v, b⟩ = edges.wanted w.log (v, b) ∧
      w.server.present ⟨.userFollowers b, v⟩ = edges.wanted w.log (v, b) :=
  Mirror.marked_of_idle (Mirror.kept_of_run edges_signs edges_owes hrun) hidle (v, b) rfl

/-- At rest the two records of a like are there if a like was the last call
about it that passed the guard, and are not if an unlike was. -/
theorem like_last_word (hrun : Run (likeSides.InTurn Call.wants) emptyWorld w) (hidle : w.Idle)
    (u : Uid) (p : DocId) :
    w.server.present ⟨.postLikes p, u⟩ = likeSides.wanted w.log (u, p) ∧
      w.server.present ⟨.userLikes u, p⟩ = likeSides.wanted w.log (u, p) :=
  Mirror.marked_of_idle (Mirror.kept_of_run likeSides_signs likeSides_owes hrun) hidle (u, p) rfl

end

/-! ## A follow, and a like tapped twice -/

/-- Nobody changes his mind before a call is done, and nothing fails. -/
def inTurn {K : Type} [DecidableEq K] (m : Mirror K) (w : World village Unit)
    (e : Event village Unit) : Bool :=
  match e with
  | .act _ a =>
      let t := (village.ui a (w.devices ()).loc).1
      (m.key t).isNone || (w.devices ()).tags.all fun t' =>
        m.key t' != m.key t || Call.wants t' == Call.wants t
  | .commit _ fail => Option.isNone fail
  | _ => true

theorem inTurn_of {K : Type} [DecidableEq K] {m : Mirror K} {w : World village Unit}
    {e : Event village Unit} (h : inTurn m w e = true) : m.InTurn Call.wants w e := by
  refine ⟨?_, ?_⟩
  · rintro d a k rfl hk d' t ht hkt
    simp only [inTurn, hk, Bool.or_eq_true, Option.isNone_some, Bool.false_eq_true, false_or,
      List.all_eq_true] at h
    simpa [hkt] using h t ht
  · rintro d error n ns rfl
    cases h

theorem follow_last_word_followed :
    followed.server.present ⟨.userFollowing "n3", "n1"⟩ = edges.wanted followed.log ("n3", "n1") ∧
      followed.server.present ⟨.userFollowers "n1", "n3"⟩ =
        edges.wanted followed.log ("n3", "n1") := by
  refine follow_last_word ?_ (fun _ => (by decide : (followed.devices ()).idle = true)) "n3" "n1"
  unfold followed
  iterate 7 refine Policy.run_checks (fun _ _ => inTurn_of) (by decide) ?_
  exact .refl

example : edges.wanted followed.log ("n3", "n1") = true := by decide

/-- The second tap finds the count still at 0: it is dropped, and the post stays liked. -/
theorem like_last_word_tappedTwice :
    tappedTwice.server.present ⟨.postLikes "n3", "n1"⟩ =
        likeSides.wanted tappedTwice.log ("n1", "n3") ∧
      tappedTwice.server.present ⟨.userLikes "n1", "n3"⟩ =
        likeSides.wanted tappedTwice.log ("n1", "n3") := by
  refine like_last_word ?_ (fun _ => (by decide : (tappedTwice.devices ()).idle = true)) "n1" "n3"
  unfold tappedTwice ownPost
  iterate 7 refine Policy.run_checks (fun _ _ => inTurn_of) (by decide) ?_
  exact .refl

example : likeSides.wanted tappedTwice.log ("n1", "n3") = true := by decide

end DogVillage
