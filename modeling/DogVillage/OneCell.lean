import DogVillage.Effects
import DogVillage.Async.Segment

/-!
# Likes through one cell

One account taps the like button of one cell that stays bound to one post.
As long as a tap waits for what the one before it still does to the count,
the cell and the documents agree whenever nothing is outstanding; a tap
made before that pairs a new flag with an old count.
-/

namespace DogVillage

open Async

/-- All that sending a notification shows. -/
def Sending : Obs sig → Prop
  | .changed _ => False
  | .issued wr | .wrote wr _ => ∃ uid, (DocWrite.ref wr).collection = Collection.userNotifications uid
  | _ => True

/-- Cell `c` of feed `i` shows `p` as it is stored: with the number of
likes there are, and liked if `u` likes it. -/
structure Agrees (srv : Server) (app : App) (i c : Nat) (p : DocId) (u : Uid) (post : Post) :
    Prop where
  shown : Action.shownPost app i c = some post
  id : post.postId = p
  stored : ∃ data : Dictionary, srv.docs.get ⟨.posts, p⟩ = some data ∧
    data.lookup "likes" = some (.int post.likes)
  count : post.likes = srv.docs.count (.postLikes p)
  liked : srv.present ⟨.postLikes p, u⟩ = post.didLike
  recorded : srv.present ⟨.userLikes u, p⟩ = post.didLike

/-- Taps on the cell, and what they set off; nothing fails. -/
def Tapping {D : Type} (d : D) (i c : Nat) (e : Event village D) : Prop :=
  e = .act d (Action.tapLike i c) ∨ Alone d e ∧ Smooth e

section

variable {D : Type} [DecidableEq D] {d : D} {i c : Nat} {p : DocId} {u : Uid} {post : Post}
  {w w₀ w₁ : World village D} {o : Multiset (Obs sig)} {app : App} {srv srv' : Server}

/-! ## Counting -/

/-- One document more, or one less. -/
theorem count_mark {gone : Bool} {k : Collection}
    (hold : srv.present ⟨k, u⟩ = gone) (hnew : srv'.present ⟨k, u⟩ = !gone)
    (hrest : ∀ v, v ≠ u → srv'.present ⟨k, v⟩ = srv.present ⟨k, v⟩) :
    (srv'.docs.count k : Int) = srv.docs.count k + if gone then -1 else 1 := by
  cases gone with
  | true =>
      have : srv.docs.count k = srv'.docs.count k + 1 :=
        Documents.count_of_new hnew hold fun v hv => (hrest v hv).symm
      simp only [if_true]
      omega
  | false =>
      have : srv'.docs.count k = srv.docs.count k + 1 := Documents.count_of_new hold hnew hrest
      simp only [Bool.false_eq_true, if_false]
      omega

/-- A document that is there counts. -/
theorem count_pos_of_present {k : Collection} (h : srv.present ⟨k, u⟩ = true) : 0 < srv.docs.count k :=
  List.length_pos_of_mem (Documents.mem_ids.mpr h)

/-! ## One tap -/

/-- `unlikeWrites` and `likeWrites`. -/
def tapWrites (gone : Bool) (post : Post) (uid : Uid) (completion : Completion) : Block :=
  if gone then unlikeWrites post uid completion else likeWrites post uid completion

/-- The completion the cell gives to `unlikePost`, or to `likePost`. -/
def onTapLike (i c : Nat) (gone : Bool) (post : Post) (user : User) : Completion :=
  if gone then FeedController.onUnlike i c post else FeedController.onLike i c post user

/-- The count a tap computes. -/
def recount (gone : Bool) (likes : Int) : Int := if gone then likes - 1 else likes + 1

/-- The update of the count. -/
def countWrite (gone : Bool) (post : Post) : Write :=
  .updateData ⟨.posts, post.postId⟩ [("likes", .int (recount gone post.likes))]

/-- What the writes of a tap show. -/
def tapObs (gone : Bool) (post : Post) (u : Uid) (e₀ e₁ e₂ : Option FIRError) :
    Multiset (Obs sig) :=
  {.issued (countWrite gone post), .wrote (countWrite gone post) e₀,
    .issued (markWrite gone ⟨.postLikes post.postId, u⟩),
    .wrote (markWrite gone ⟨.postLikes post.postId, u⟩) e₁,
    .issued (markWrite gone ⟨.userLikes u, post.postId⟩),
    .wrote (markWrite gone ⟨.userLikes u, post.postId⟩) e₂}

theorem mem_tapObs {gone : Bool} {wr : Write} {e e₀ e₁ e₂ : Option FIRError} :
    .wrote wr e ∈ tapObs gone post u e₀ e₁ e₂ ↔ wr = countWrite gone post ∧ e = e₀ ∨
      wr = markWrite gone ⟨.postLikes post.postId, u⟩ ∧ e = e₁ ∨
      wr = markWrite gone ⟨.userLikes u, post.postId⟩ ∧ e = e₂ := by
  simp [tapObs]

theorem outcome_tapWrites {I : App → Prop} {gone : Bool} {completion : Completion}
    (h : Outcome I (tapWrites gone post u completion) o) :
    ∃ e₀ e₁ e₂ m, Outcome I (completion e₂) m ∧ o = tapObs gone post u e₀ e₁ e₂ + m := by
  cases gone <;>
    obtain ⟨_, _, ⟨e₀, _, _, rfl, ⟨e₁, _, _, ⟨e₂, m, _, hm, rfl, rfl⟩, rfl, rfl⟩, rfl⟩, rfl, rfl⟩ :=
      h <;>
    refine ⟨e₀, e₁, e₂, m, hm, ?_⟩ <;>
    simp only [tapObs, countWrite, recount, Multiset.insert_eq_cons, ← Multiset.singleton_add,
      markWrite, add_zero, Bool.false_eq_true, if_true, if_false] <;> ac_rfl

theorem sending_uploadNotification {I : App → Prop} {uid : Uid} {fromUser : User}
    {type : NotificationType} {post : Option Post}
    (h : Outcome I (NotificationService.uploadNotification uid fromUser type post) o) :
    ∀ x ∈ o, Sending x := by
  obtain ⟨app, -, h⟩ := h
  cases hc : app.currentUser with
  | none =>
      simp only [hc] at h
      rw [show o = 0 from h]
      simp
  | some c =>
      simp only [hc] at h
      split at h
      · obtain ⟨_, _, ⟨e, _, ⟨r, _, _, rfl, rfl, rfl⟩, rfl⟩, rfl, rfl⟩ := h
        simp [Sending, DocWrite.ref]
      · rw [show o = 0 from h]
        simp

/-- The completion sets the count it was given, and may tell the owner. -/
theorem outcome_onTapLike {I : App → Prop} {gone : Bool} {user : User}
    (h : Outcome I (onTapLike i c gone post user none) o) :
    ∃ m, o = {.changed (setLikes i c (recount gone post.likes))} + m ∧ ∀ x ∈ m, Sending x := by
  cases gone with
  | true =>
      obtain ⟨m, rfl, rfl⟩ := h
      exact ⟨0, rfl, by simp⟩
  | false =>
      obtain ⟨m, hm, rfl⟩ := h
      have hm : Outcome I (NotificationService.uploadNotification post.ownerUid user .like
        (some post)) m := hm
      exact ⟨m, rfl, sending_uploadNotification hm⟩

/-- A tap on a cell that agrees with the documents passes its guards. -/
theorem likeTap_agrees {op : Op} {blk : Block} (htap : LikeTap i c app op blk)
    (hsigned : app.currentUser = some u) (hA : Agrees srv app i c p u post) :
    blk = .done ∨ ∃ user, blk = .modify (toggled i c)
      (tapWrites post.didLike post u (onTapLike i c post.didLike post user)) := by
  cases htap with
  | none => exact Or.inl rfl
  | dropped hshown _ hguard =>
      obtain rfl := Option.some.inj (hA.shown.symm.trans hshown)
      rcases hguard with h | ⟨hlike, hpos⟩
      · rw [hsigned] at h; cases h
      · have hcount := count_pos_of_present (hA.liked.trans hlike)
        have := hA.count
        omega
  | @like post' user uid hshown huser huid hlike =>
      obtain rfl := Option.some.inj (hA.shown.symm.trans hshown)
      obtain rfl := Option.some.inj (hsigned.symm.trans huid)
      exact Or.inr ⟨user, by rw [hlike]; rfl⟩
  | @unlike post' user uid hshown huser huid hlike hpos =>
      obtain rfl := Option.some.inj (hA.shown.symm.trans hshown)
      obtain rfl := Option.some.inj (hsigned.symm.trans huid)
      exact Or.inr ⟨user, by rw [hlike]; rfl⟩

/-! ## From one quiet state to the next -/

theorem shownPost_toggled :
    Action.shownPost (toggled i c app) i c =
      (Action.shownPost app i c).map fun post => { post with didLike := !post.didLike } := by
  simp only [Action.shownPost, toggled]
  cases hf : app.feeds[i]? with
  | none => simp [hf]
  | some feed => simp [hf, FeedController.setCell]

theorem shownPost_setLikes {n : Int} :
    Action.shownPost (setLikes i c n app) i c =
      (Action.shownPost app i c).map fun post => { post with likes := n } := by
  simp only [Action.shownPost, setLikes]
  cases hf : app.feeds[i]? with
  | none => simp [hf]
  | some feed => simp [hf, FeedController.setCell]

/-- What a tap on a quiet device shows until it is quiet again: the server
and the memory change by an outcome of its block. -/
theorem quiet_segment {a : Action} (hquiet : (w₀.devices d).Quiet Sending)
    (hact : step w₀ (.act d a) = some w₁) (hrun : Run (fun _ e => Alone d e ∧ Smooth e) w₁ w)
    (hdone : (w.devices d).Quiet Sending) :
    ∃ o m, Traced w₀.server w.server o ∧ (∀ x, ¬Sending x → (x ∈ o ↔ x ∈ m)) ∧
      Outcome (fun _ => True) (a.block.start (w₀.devices d).loc) m ∧
      ∃ fs : List (App → App), (fs : Multiset (App → App)) = changes m ∧
        (w.devices d).loc = fs.foldr (fun f l => f l) (w₀.devices d).loc := by
  obtain ⟨o, ho, hout⟩ := outcome_of_quiet (P := Sending) (fun f h => h)
    nonempty_ans nonempty_env (fun _ => True)
    (fun _ _ h => h.1.2) hquiet hact hrun hdone trivial
  obtain ⟨-, m, m₁, m₂, heq, hm, hm₂, h₁⟩ := hout fun _ _ _ _ => trivial
  obtain ⟨o', ho', htr⟩ := traced_of_run hrun
  obtain ⟨o'', fs, ho'', hfs, hl⟩ := loc_of_run hrun d
  obtain ⟨hsrv, hseen, hloc⟩ := acted hact
  rw [hseen, ho, add_right_inj] at ho' ho''
  subst ho' ho''
  rw [hsrv] at htr
  rw [hloc] at hl
  have quiet : ∀ {s : Multiset (Obs sig)}, (∀ x ∈ s, Sending x) → changes s = 0 := fun hs =>
    Multiset.eq_zero_of_forall_notMem fun f hf => hs _ (mem_changes.mp hf)
  refine ⟨o, m₁, htr, fun x hx => ?_, h₁, fs, ?_, hl⟩
  · have hsum : x ∈ o + m ↔ x ∈ m₁ + m₂ := by rw [heq]
    rw [Multiset.mem_add, Multiset.mem_add] at hsum
    constructor
    · exact fun h => (hsum.mp (Or.inl h)).resolve_right fun h => hx (hm₂ x h)
    · exact fun h => (hsum.mpr (Or.inl h)).resolve_right fun h => hx (hm x h)
  · have hsum : changes (o + m) = changes (m₁ + m₂) := by rw [heq]
    rw [changes_add, changes_add, quiet hm, quiet hm₂, add_zero, add_zero] at hsum
    rw [hfs, hsum]

/-- The post of a cell once a tap on it has been carried out. -/
def tapped (post : Post) : Post :=
  { post with didLike := !post.didLike, likes := recount post.didLike post.likes }

/-- The writes of a tap, carried out, keep the agreement. -/
theorem agrees_tapped {app' : App} {e₀ : Option FIRError} (hA : Agrees srv app i c p u post)
    (htr : Traced srv srv' o)
    (hwrote : ∀ (wr : Write) (e : Option FIRError), ¬Sending (.wrote wr e) →
      (.wrote wr e ∈ o ↔ .wrote wr e ∈ tapObs post.didLike post u e₀ none none))
    (hshown : Action.shownPost app' i c = some (tapped post)) :
    Agrees srv' app' i c p u (tapped post) := by
  obtain rfl := hA.id
  have hmem : ∀ (wr : Write) (e : Option FIRError) (k : Collection), wr.ref.collection = k →
      (∀ uid, k ≠ .userNotifications uid) →
      (.wrote wr e ∈ o ↔ .wrote wr e ∈ tapObs post.didLike post u e₀ none none) := by
    rintro wr e k rfl hk
    exact hwrote wr e fun ⟨uid, h⟩ => hk uid h
  have hposts : ∀ wr : Write, .wrote wr none ∈ o → wr.ref = ⟨.posts, post.postId⟩ →
      wr = countWrite post.didLike post ∧ e₀ = none := by
    intro wr hwr hr
    rcases mem_tapObs.mp ((hmem wr none .posts (by rw [hr]) (by simp)).mp hwr) with
      ⟨rfl, he⟩ | ⟨rfl, -⟩ | ⟨rfl, -⟩
    · exact ⟨rfl, he.symm⟩
    · simp at hr
    · simp at hr
  obtain ⟨data, hdata, hlikes⟩ := hA.stored
  have he₀ : e₀ = none := by
    cases he : e₀ with
    | none => rfl
    | some err =>
        obtain ⟨r, data', hwr, hr⟩ := htr.refused (countWrite post.didLike post) err
          ((hmem _ _ .posts rfl (by simp)).mpr (mem_tapObs.mpr (Or.inl ⟨rfl, he.symm⟩)))
        obtain ⟨rfl, -⟩ := DocWrite.updateData.inj hwr
        rw [hr (accepted_eq_zero fun wr hwr hwrr => by
          rw [(hposts wr hwr hwrr).2] at he
          cases he)] at hdata
        cases hdata
  subst he₀
  obtain ⟨old, hold⟩ := htr.updated (fun wr hwr hr => (hposts wr hwr hr).1)
    ((hmem _ _ .posts rfl (by simp)).mpr (mem_tapObs.mpr (Or.inl ⟨rfl, rfl⟩)))
    (by rw [hdata]; rfl)
  have hliked : srv'.docs.get ⟨.postLikes post.postId, u⟩ =
      if post.didLike then none else some [] := by
    refine htr.mark (fun wr hwr hr => ?_) ((hmem _ _ (.postLikes post.postId) (by simp)
      (by simp)).mpr (mem_tapObs.mpr (Or.inr (Or.inl ⟨rfl, rfl⟩))))
    rcases mem_tapObs.mp ((hmem wr none (.postLikes post.postId) (by rw [hr]) (by simp)).mp hwr)
      with ⟨rfl, -⟩ | ⟨rfl, -⟩ | ⟨rfl, -⟩
    · simp [countWrite, DocWrite.ref] at hr
    · rfl
    · simp at hr
  have hrecorded : srv'.docs.get ⟨.userLikes u, post.postId⟩ =
      if post.didLike then none else some [] := by
    refine htr.mark (fun wr hwr hr => ?_) ((hmem _ _ (.userLikes u) (by simp)
      (by simp)).mpr (mem_tapObs.mpr (Or.inr (Or.inr ⟨rfl, rfl⟩))))
    rcases mem_tapObs.mp ((hmem wr none (.userLikes u) (by rw [hr]) (by simp)).mp hwr)
      with ⟨rfl, -⟩ | ⟨rfl, -⟩ | ⟨rfl, -⟩
    · simp [countWrite, DocWrite.ref] at hr
    · simp at hr
    · rfl
  have hothers : ∀ v, v ≠ u →
      srv'.present ⟨.postLikes post.postId, v⟩ = srv.present ⟨.postLikes post.postId, v⟩ := by
    refine fun v hv => Server.present_congr (htr.kept (accepted_eq_zero fun wr hwr hr => ?_))
    rcases mem_tapObs.mp ((hmem wr none (.postLikes post.postId) (by rw [hr]) (by simp)).mp hwr)
      with ⟨rfl, -⟩ | ⟨rfl, -⟩ | ⟨rfl, -⟩
    · simp [countWrite, DocWrite.ref] at hr
    · rw [ref_markWrite] at hr
      exact hv (congrArg Ref.id hr).symm
    · simp at hr
  have hpresent : srv'.present ⟨.postLikes post.postId, u⟩ = !post.didLike := by
    rw [show srv'.present ⟨.postLikes post.postId, u⟩ = (srv'.docs.get _).isSome from rfl, hliked]
    cases post.didLike <;> rfl
  refine ⟨hshown, rfl, ⟨_, hold, rfl⟩, ?_, hpresent, ?_⟩
  · have hcount := count_mark hA.liked hpresent hothers
    rw [show (tapped post).likes = recount post.didLike post.likes from rfl, hcount, ← hA.count]
    cases post.didLike <;> simp [recount, sub_eq_add_neg]
  · rw [show srv'.present ⟨.userLikes u, post.postId⟩ = (srv'.docs.get _).isSome from rfl, hrecorded]
    show _ = !post.didLike
    cases post.didLike <;> rfl

/-- Notifications do not touch it. -/
theorem agrees_sending {app' : App} (hA : Agrees srv app i c p u post) (htr : Traced srv srv' o)
    (hsend : ∀ wr : Write, .wrote wr none ∈ o → Sending (.wrote wr none))
    (hshown : Action.shownPost app' i c = some post) : Agrees srv' app' i c p u post := by
  have keep : ∀ r : Ref Collection, (∀ uid, r.collection ≠ .userNotifications uid) →
      srv'.docs.get r = srv.docs.get r := fun r hr => by
    refine htr.kept (accepted_eq_zero fun wr hwr hwrr => ?_)
    obtain ⟨uid, hs⟩ := hsend wr hwr
    exact hr uid (hwrr ▸ hs)
  refine ⟨hshown, hA.id, ?_, ?_, ?_, ?_⟩
  · rw [keep _ (by simp)]; exact hA.stored
  · rw [hA.count, Documents.count_congr fun v => by rw [keep _ (by simp)]]
  · exact (Server.present_congr (keep _ (by simp))).trans hA.liked
  · exact (Server.present_congr (keep _ (by simp))).trans hA.recorded

/-- A tap on a quiet device keeps the agreement, once the device is quiet
again. -/
theorem agrees_segment (hquiet : (w₀.devices d).Quiet Sending)
    (hsigned : (w₀.devices d).loc.currentUser = some u)
    (hA : Agrees w₀.server (w₀.devices d).loc i c p u post)
    (hact : step w₀ (.act d (.tapLike i c)) = some w₁)
    (hrun : Run (fun _ e => Alone d e ∧ Smooth e) w₁ w) (hdone : (w.devices d).Quiet Sending) :
    (w.devices d).loc.currentUser = some u ∧
      ∃ post', Agrees w.server (w.devices d).loc i c p u post' := by
  obtain ⟨o, m, htr, hmem, hout, fs, hfs, hl⟩ := quiet_segment hquiet hact hrun hdone
  rcases likeTap_agrees (likeTap i c (w₀.devices d).loc) hsigned hA with hblk | ⟨user, hblk⟩
  · rw [hblk] at hout
    rw [show m = 0 from hout, changes_zero, Multiset.coe_eq_zero] at hfs
    rw [hl, hfs]
    refine ⟨hsigned, post, agrees_sending hA htr (fun wr hwr => ?_) hA.shown⟩
    by_contra hs
    rw [hmem _ hs, show m = 0 from hout] at hwr
    simp at hwr
  · rw [hblk] at hout
    obtain ⟨_, hb, rfl⟩ := hout
    obtain ⟨e₀, e₁, e₂, m, hm, rfl⟩ := outcome_tapWrites hb
    -- the marks are never refused
    have marked : ∀ {r : Ref Collection} {e : Option FIRError},
        (∀ uid, r.collection ≠ .userNotifications uid) →
        .wrote (markWrite post.didLike r) e ∈ tapObs post.didLike post u e₀ e₁ e₂ → e = none := by
      intro r e hr hx
      cases e with
      | none => rfl
      | some err =>
          obtain ⟨r', data, hwr, -⟩ := htr.refused _ err ((hmem _ (by
            rintro ⟨uid, hs⟩
            rw [ref_markWrite] at hs
            exact hr uid hs)).mpr
              (Multiset.mem_add.mpr (Or.inr (Multiset.mem_add.mpr (Or.inl hx)))))
          exact absurd hwr (markWrite_ne r r' data)
    obtain rfl : e₂ = none := marked (r := ⟨.userLikes u, post.postId⟩) (by simp)
      (mem_tapObs.mpr (Or.inr (Or.inr ⟨rfl, rfl⟩)))
    obtain rfl : e₁ = none := marked (r := ⟨.postLikes post.postId, u⟩) (by simp)
      (mem_tapObs.mpr (Or.inr (Or.inl ⟨rfl, rfl⟩)))
    obtain ⟨m, rfl, hsend⟩ := outcome_onTapLike hm
    have hwrote : ∀ (wr : Write) (e : Option FIRError), ¬Sending (.wrote wr e) →
        (.wrote wr e ∈ o ↔ .wrote wr e ∈ tapObs post.didLike post u e₀ none none) := by
      intro wr e hs
      rw [hmem _ hs, Multiset.mem_add, Multiset.mem_add, Multiset.mem_add]
      constructor
      · rintro (h | h | h | h)
        · cases Multiset.mem_singleton.mp h
        · exact h
        · cases Multiset.mem_singleton.mp h
        · exact absurd (hsend _ h) hs
      · exact fun h => Or.inr (Or.inl h)
    -- the toggle and the count in either order
    have happ : Action.shownPost (w.devices d).loc i c = some (tapped post) ∧
        (w.devices d).loc.currentUser = some u := by
      have hfs : (fs : Multiset (App → App)) =
          ([toggled i c, setLikes i c (recount post.didLike post.likes)] : List (App → App)) := by
        have hm : changes m = 0 := Multiset.eq_zero_of_forall_notMem fun f hf =>
          hsend _ (mem_changes.mp hf)
        rw [hfs, changes_add, changes_add, changes_add, hm]
        simp [tapObs]
        rfl
      rcases List.perm_pair.mp (Multiset.coe_eq_coe.mp hfs) with rfl | rfl
      · rw [hl]
        exact ⟨by simp [shownPost_toggled, shownPost_setLikes, hA.shown, tapped], hsigned⟩
      · rw [hl]
        exact ⟨by simp [shownPost_toggled, shownPost_setLikes, hA.shown, tapped], hsigned⟩
    exact ⟨happ.2, tapped post, agrees_tapped hA htr hwrote happ.1⟩

/-- Between taps a quiet device keeps it too. -/
theorem agrees_quiet (hquiet : (w₀.devices d).Quiet Sending)
    (hsigned : (w₀.devices d).loc.currentUser = some u)
    (hA : Agrees w₀.server (w₀.devices d).loc i c p u post)
    (hrun : Run (fun _ e => Alone d e ∧ Smooth e) w₀ w) :
    (w.devices d).loc.currentUser = some u ∧
      Agrees w.server (w.devices d).loc i c p u post := by
  obtain ⟨o, ho, hsend⟩ := seen_of_quiet (P := Sending)
    nonempty_ans nonempty_env (fun _ _ h => h.1.2) hquiet hrun
  obtain ⟨o', ho', htr⟩ := traced_of_run hrun
  obtain ⟨o'', fs, ho'', hfs, hl⟩ := loc_of_run hrun d
  rw [ho, add_right_inj] at ho' ho''
  subst ho' ho''
  rw [Multiset.eq_zero_of_forall_notMem fun f hf => hsend _ (mem_changes.mp hf),
    Multiset.coe_eq_zero] at hfs
  rw [hl, hfs]
  exact ⟨hsigned, agrees_sending hA htr (fun wr hwr => hsend _ hwr) hA.shown⟩

/-! ## Every run -/

/-- The last quiet state in which the cell agreed with the documents, and
what was done since: at most one tap. -/
def SinceQuiet (d : D) (i c : Nat) (p : DocId) (u : Uid) (w : World village D) : Prop :=
  ∃ w₀ post, (w₀.devices d).Quiet Sending ∧ (w₀.devices d).loc.currentUser = some u ∧
    Agrees w₀.server (w₀.devices d).loc i c p u post ∧
    (Run (fun _ e => Alone d e ∧ Smooth e) w₀ w ∨
      ∃ w₁, step w₀ (.act d (.tapLike i c)) = some w₁ ∧
        Run (fun _ e => Alone d e ∧ Smooth e) w₁ w)

theorem SinceQuiet.agrees (h : SinceQuiet d i c p u w) (hquiet : (w.devices d).Quiet Sending) :
    (w.devices d).loc.currentUser = some u ∧
      ∃ post, Agrees w.server (w.devices d).loc i c p u post := by
  obtain ⟨w₀, post, hquiet₀, hsigned, hA, hrun | ⟨w₁, hact, hrun⟩⟩ := h
  · obtain ⟨hs, hA⟩ := agrees_quiet hquiet₀ hsigned hA hrun
    exact ⟨hs, post, hA⟩
  · exact agrees_segment hquiet₀ hsigned hA hact hrun hquiet

/-- Taps that wait until the one before has had its effect on the count:
the cell and the documents agree whenever nothing is outstanding. -/
theorem agrees_of_run (hidle : (w₀.devices d).idle = true)
    (hsigned : (w₀.devices d).loc.currentUser = some u)
    (hA : Agrees w₀.server (w₀.devices d).loc i c p u post)
    (hrun : Run (fun w e => Tapping d i c e ∧
      (e = .act d (Action.tapLike i c) → (w.devices d).Quiet Sending)) w₀ w)
    (hdone : (w.devices d).idle = true) :
    ∃ post', Agrees w.server (w.devices d).loc i c p u post' := by
  have hsince : SinceQuiet d i c p u w := by
    clear hdone
    induction hrun with
    | refl => exact ⟨w₀, post, .of_idle hidle, hsigned, hA, Or.inl .refl⟩
    | step _ hok hstep ih =>
        obtain ⟨rfl | he, hq⟩ := hok
        · have hquiet := hq rfl
          obtain ⟨hs, post', hA'⟩ := ih.agrees hquiet
          exact ⟨_, post', hquiet, hs, hA', Or.inr ⟨_, hstep, .refl⟩⟩
        · obtain ⟨w', post', hquiet, hs, hA', h⟩ := ih
          refine ⟨w', post', hquiet, hs, hA', ?_⟩
          rcases h with h | ⟨w₁, hact, h⟩
          · exact Or.inl (h.step he hstep)
          · exact Or.inr ⟨w₁, hact, h.step he hstep⟩
  exact (hsince.agrees (.of_idle hdone)).2

end

/-! ## Runs -/

/-- Alice's own post, as her feed shows it. -/
def walk : Post where
  caption := "walk"
  likes := 0
  imageUrl := "/profile_image/n2"
  ownerUid := "n1"
  timestamp := ⟨3, 0⟩
  postId := "n3"
  ownerImageUrl := "/profile_image/n0"
  ownerUsername := "alice".toLower

theorem agrees_ownPost :
    Agrees ownPost.server (ownPost.devices ()).loc 0 0 "n3" "n1" walk where
  shown := rfl
  id := rfl
  stored := ⟨_, rfl, rfl⟩
  count := by decide
  liked := by decide
  recorded := by decide

theorem tapping_smooth {d : Unit} {i c : Nat} {w : World village Unit} {e : Event village Unit}
    (h : smooth.pick d w = some e) :
    Tapping d i c e ∧ (e = .act d (Action.tapLike i c) → (w.devices d).Quiet Sending) := by
  refine ⟨Or.inr (smooth_pick h), ?_⟩
  rintro rfl
  exact absurd rfl ((Policy.pick_own h).2.1 _)

theorem agrees_one_tap : ∃ post', Agrees (smooth.perform () (.tapLike 0 0) 100 ownPost).server
    ((smooth.perform () (.tapLike 0 0) 100 ownPost).devices ()).loc 0 0 "n3" "n1" post' :=
  agrees_of_run (d := ()) (i := 0) (c := 0) (by decide) (by decide) agrees_ownPost
    (Policy.run_perform (fun _ _ h => tapping_smooth h)
      ⟨Or.inl rfl, fun _ => .of_idle (by decide)⟩ .refl) (by decide)

/-- Alice taps twice before anything is written. -/
def doubleTap : World village Unit :=
  ownPost |> smooth.perform () (.tapLike 0 0) 3 |> smooth.perform () (.tapLike 0 0) 100

/-- Liked and not liked at once: the second tap turns the flag back, finds
no like to take away in its old copy and does nothing. -/
theorem doubleTap_disagrees : (ownPost.devices ()).idle = true ∧
    (ownPost.devices ()).loc.currentUser = some "n1" ∧
    Agrees ownPost.server (ownPost.devices ()).loc 0 0 "n3" "n1" walk ∧
    Run (fun _ e => Tapping () 0 0 e) ownPost doubleTap ∧
    (doubleTap.devices ()).idle = true ∧
    ¬∃ post, Agrees doubleTap.server (doubleTap.devices ()).loc 0 0 "n3" "n1" post := by
  refine ⟨by decide, by decide, agrees_ownPost, ?_, by decide, ?_⟩
  · unfold doubleTap
    iterate 2
      refine Policy.run_perform (fun _ _ h => (tapping_smooth h).1) (Or.inl rfl) ?_
    exact .refl
  · rintro ⟨post, h⟩
    have hshown : Action.shownPost (doubleTap.devices ()).loc 0 0 =
        some { walk with likes := 1 } := rfl
    obtain rfl := Option.some.inj (hshown.symm.trans h.shown)
    have hliked : doubleTap.server.present ⟨.postLikes "n3", "n1"⟩ = true := by decide
    rw [h.liked] at hliked
    cases hliked

end DogVillage
