import DogVillage.AccountFates
import DogVillage.Feeds
import DogVillage.LikeSides
import DogVillage.Records

/-!
# One document for each call

A comment is one call and one document. A notification is written by the
completion of a like, a comment or a follow, in a block of its own, and only
if somebody else than the addressee is signed in by then. As long as nothing
fails and an account stays signed in during its calls, there are exactly as
many notifications of `u` as calls of others that `u` is to be told of, in
whatever order all these blocks run.
-/

namespace DogVillage

open Async

/-- A document of the collection is put in place. -/
def storedIn (c : Collection) : Obs sig → Bool
  | .wrote (.setData r _) none => decide (r.collection = c)
  | _ => false

section

variable {D : Type} [DecidableEq D] {w w' : World village D} {e : Event village D}
  {ok : World village D → Event village D → Prop} {c : Collection}

omit [DecidableEq D] in
theorem storedIn_own {o : Obs sig} (h : o.isOwn = true) : storedIn c o = false := by
  cases o <;> first | rfl | cases h

/-- A commit adds one document to a lasting collection, and one entry, or
neither. -/
theorem count_commit (hrun : Run ok emptyWorld w) (hc : c.lasting = true) {d : D}
    {fail : Option FIRError} {m : Sent village} {ms : List (Sent village)}
    (hw : (w.devices d).writes = m :: ms) :
    (settle village m.write fail w.server).1.docs.count c = w.server.docs.count c +
      (storedIn c (.wrote m.write (settle village m.write fail w.server).2)).toNat := by
  have hm : m ∈ (w.devices d).writes := by rw [hw]; exact List.mem_cons_self
  have hother : (∀ i, (settle village m.write fail w.server).2 = none → m.write.ref ≠ ⟨c, i⟩) →
      (settle village m.write fail w.server).1.docs.count c = w.server.docs.count c := fun hne =>
    Documents.count_congr fun i => congrArg Option.isSome (docs_settle fun h => hne i h)
  cases hres : (settle village m.write fail w.server).2 with
  | some err =>
      rw [hother fun i h => by rw [hres] at h; cases h]
      cases m.write <;> rfl
  | none =>
      by_cases hcol : m.write.ref.collection = c
      · subst hcol
        obtain ⟨data, hwr⟩ := (mayWrite_of_sent hrun hm).lasting hc
        obtain ⟨-, docs, happly, hset⟩ := docs_accepted hres
        have hget := Documents.get_apply happly
        rw [hset]
        show docs.count _ = _
        have hnew : w.server.docs.get m.write.ref = none := by
          refine Option.eq_none_iff_forall_ne_some.mpr fun old hold => ?_
          exact new_of_sent hrun (Or.inr hc) hm hwr (existed_of_present hrun hold)
        rw [Documents.count_of_new (i := m.write.ref.id) (by rw [hnew]; rfl) ?_ fun j hj => ?_, hwr]
        · simp [storedIn, DocWrite.ref]
        · rw [hget, if_pos rfl, hwr]
          rfl
        · rw [hget, if_neg fun h => hj (congrArg Ref.id h)]
      · rw [hother fun i _ h => hcol (by rw [h])]
        cases hwr : m.write with
        | setData r data =>
            rw [hwr] at hcol
            simp [storedIn, show r.collection ≠ c from hcol]
        | _ => rfl

/-- The documents of comments and notifications are the writes carried out. -/
theorem count_stored (hrun : Run ok emptyWorld w) (hc : c.lasting = true) :
    w.server.docs.count c = w.log.countP fun x => storedIn c x.obs := by
  induction hrun with
  | refl => rfl
  | @step w w' e hrun _ hstep ih =>
      have hs := stepped_of_step hstep
      by_cases he : ∃ d fail, e = .commit d fail
      · obtain ⟨d, fail, rfl⟩ := he
        cases hs with
        | @commit _ _ m ms hw =>
            refine (count_commit hrun hc hw).trans ?_
            rw [ih]
            refine Eq.trans ?_ List.countP_cons.symm
            cases storedIn c (.wrote m.write (settle village m.write fail w.server).2) <;> rfl
      · have hdocs : w'.server.docs = w.server.docs := by
          cases docsStep hs with
          | same hdocs => exact hdocs
          | wrote heq => exact absurd ⟨_, _, heq⟩ he
        rw [hdocs, ih]
        cases hs.logs with
        | acted _ hlog | answered _ hlog => rw [hlog, List.countP_cons_of_neg (by simp [storedIn])]
        | wrote heq => exact absurd ⟨_, _, heq⟩ he
        | own hlog hl =>
            have hzero := List.countP_eq_zero.mpr fun x hx =>
              (Bool.eq_false_iff.mp (storedIn_own (c := c) (hl x hx)) : storedIn c x.obs ≠ true)
            rw [hlog, List.countP_append, hzero, Nat.zero_add]

end

/-! ## Comments -/

section

variable {p : DocId} {s : ℤ} {t : Call}

open Tally

/-- A document of the call's comment is written, or refused. -/
def wroteComment (p : DocId) (t : Call) : Obs sig → Bool
  | .wrote (.setData r _) _ => t.op = .comment p ∧ r.collection = .comments p
  | _ => false

def startedComment (p : DocId) (t : Call) : Obs sig → Bool
  | .acted => t.op = .comment p
  | _ => false

def commentCalls (p : DocId) (s : ℤ) : Tally village :=
  balance (wroteComment p) (startedComment p) s fun _ _ => True

theorem commentCalls_of_touches {b : Block} (h : Touches (· ≠ .comments p) b) :
    (commentCalls p s).AtMost t b 0 := by
  refine AtMost.of_leads (fun _ => trivial) (h.leads (fun w hw => ⟨?_, fun r => ?_⟩)
    (fun _ _ => ?_) (fun _ => ?_) (fun _ => ?_) fun _ => ?_)
  · simp [commentCalls, balance, wroteComment, startedComment]
  · have hd : wroteComment p t (.wrote w r) = false := by
      cases w with
      | setData r' data =>
          simp only [wroteComment, decide_eq_false_iff_not]
          exact fun h => hw h.2
      | _ => rfl
    simp [commentCalls, balance, hd, startedComment]
  all_goals simp [commentCalls, balance, wroteComment, startedComment]

/-- A comment is written once. -/
theorem commentCalls_commentWrite (ht : t.op = .comment p) {comment : String} {user : User}
    {completion : Completion} (hc : ∀ e, Touches (· ≠ .comments p) (completion e)) :
    (commentCalls p s).AtMost t (commentWrite comment p user completion) s := by
  refine ⟨0, le_refl _, fun v => ⟨0, le_refl _, fun e => ?_⟩⟩
  refine (commentCalls_of_touches (hc e)).mono (le_of_eq ?_)
  simp [commentCalls, balance, wroteComment, startedComment, ht]

theorem commentCalls_action {a : Action} {app : App} :
    (commentCalls p s).AtMost ⟨app.currentUser, a.op app⟩ (a.block.start app)
      (-(commentCalls p s).value ⟨app.currentUser, a.op app⟩ .acted) := by
  by_cases ht : a.op app = .comment p
  · have hv : -(commentCalls p s).value ⟨app.currentUser, a.op app⟩ .acted = s := by
      simp [commentCalls, balance, wroteComment, startedComment, ht]
    rw [hv]
    have hs := a.starts app
    rw [ht] at hs
    cases hs with
    | @comment i comment =>
        have htap := commentTap i comment app
        generalize (Action.sendComment i comment).op app = op at htap ht ⊢
        generalize (Action.sendComment i comment).block.start app = b at htap ⊢
        cases htap with
        | none => cases ht
        | send =>
            cases ht
            refine ⟨fun _ _ _ => trivial, (commentCalls_commentWrite rfl fun e =>
              touches_onComment (by simp) e).mono (le_of_eq ?_)⟩
            simp [commentCalls, balance, wroteComment, startedComment]
  · have hv : -(commentCalls p s).value ⟨app.currentUser, a.op app⟩ .acted = 0 := by
      simp [commentCalls, balance, wroteComment, startedComment, ht]
    rw [hv]
    refine atMost_other (fun _ => trivial) (fun o => ?_) (fun o => ?_) _
    · unfold wroteComment
      split <;> simp [ht]
    · unfold startedComment
      split <;> simp [ht]

variable {D : Type} [DecidableEq D] {w : World village D}

/-- What is in the collection of comments was put there by comments. -/
theorem stored_wroteComment (hrun : Run NoFailure emptyWorld w) {x : Entry village D}
    (hx : x ∈ w.log) : storedIn (.comments p) x.obs = wroteComment p x.tag x.obs := by
  obtain ⟨d, t, o⟩ := x
  cases o with
  | wrote wr res =>
      cases wr with
      | setData r data =>
          obtain rfl := setData_accepted hrun _ hx r data res rfl
          have hmay := mayWrite_of_wrote hrun _ hx _ _ rfl
          refine decide_eq_decide.mpr ⟨fun hr => ⟨?_, hr⟩, And.right⟩
          obtain ⟨c, i⟩ := r
          cases hr
          exact hmay.entitled
      | _ => rfl
  | _ => rfl

/-- No comment is lost and none is written twice: once nothing is outstanding
a post has one document for each comment that was sent. -/
theorem comments_exact (hrun : Run NoFailure emptyWorld w) (hidle : w.Idle) (p : DocId) :
    w.server.docs.count (.comments p) = w.log.countP fun x => startedComment p x.tag x.obs := by
  have htallied : ∀ s d, (commentCalls p s).Tallied d w := fun s d =>
    Tallied.of_run (fun _ _ => commentCalls_action) (fun _ _ => trivial)
      (tallied_of_idle rfl rfl rfl) hrun
  calc w.server.docs.count (.comments p)
      = w.log.countP fun x => storedIn (.comments p) x.obs := count_stored hrun rfl
    _ = w.log.countP fun x => wroteComment p x.tag x.obs :=
        List.countP_congr fun x hx => by rw [stored_wroteComment hrun hx]
    _ = w.log.countP fun x => startedComment p x.tag x.obs := debits_eq_credits htallied hidle

end

/-! ## Notifications -/

section

variable {own : DocId → Bool} {u : Uid} {s : ℤ} {t : Call}

open Tally

/-- `u`, to whom the posts `own` belong, is to be told of such a call. -/
def Op.told (own : DocId → Bool) (u : Uid) : Op → Bool
  | .like post => post.ownerUid = u
  | .comment p => own p
  | .follow v => v = u
  | _ => false

/-- A call of this kind notifies somebody. -/
def Op.tells : Op → Bool
  | .like _ | .comment _ | .follow _ => true
  | _ => false

theorem tells_of_told {o : Op} (h : o.told own u = true) : o.tells = true := by
  cases o <;> first | rfl | cases h

/-- The call is somebody else's. -/
def Call.other (t : Call) (u : Uid) : Bool := t.actor.isSome && t.actor ≠ some u

/-- A notification of `u` is written, or the like it would be about fails. -/
def told (own : DocId → Bool) (u : Uid) (t : Call) : Obs sig → Bool
  | .wrote (.setData r _) res => t.op.told own u && (r.collection = .userNotifications u ||
      t.other u && res.isSome && t.actor.any fun v => r.collection = .userLikes v)
  | _ => false

def startedTelling (own : DocId → Bool) (u : Uid) (t : Call) : Obs sig → Bool
  | .acted => t.op.told own u && t.other u
  | _ => false

/-- A call is made while its account is signed in. -/
def tidings (own : DocId → Bool) (u : Uid) (s : ℤ) : Tally village :=
  balance (told own u) (startedTelling own u) s fun t app =>
    t.op.told own u = true → app.currentUser = t.actor

theorem value_tidings {o : Obs sig} (ht : told own u t o = false) (hs : o ≠ .acted) :
    (tidings own u s).value t o = 0 := by
  have hc : startedTelling own u t o = false := by
    cases o <;> first | rfl | exact absurd rfl hs
  simp [tidings, balance, ht, hc]

theorem told_other {w : Write} (h : w.ref.collection ≠ .userNotifications u)
    (h' : ∀ v, w.ref.collection ≠ .userLikes v) (r : Option FIRError) :
    told own u t (.wrote w r) = false := by
  cases w with
  | setData ref data =>
      have hany : (t.actor.any fun v => decide (ref.collection = .userLikes v)) = false :=
        (Option.any_eq_false _ _).mpr fun v _ => decide_eq_false (h' v)
      simp only [told, hany, Bool.and_false, Bool.or_false, Bool.and_eq_false_iff,
        decide_eq_false_iff_not]
      exact Or.inr h
  | _ => rfl

theorem tidings_write {w : Write} {k : Completion} {b : Block} {n : ℤ}
    (h : w.ref.collection ≠ .userNotifications u) (h' : ∀ v, w.ref.collection ≠ .userLikes v)
    (hk : ∀ e, (tidings own u s).AtMost t (k e) n) (hb : (tidings own u s).AtMost t b 0) :
    (tidings own u s).AtMost t (.write w k b) n := by
  refine ⟨0, hb, fun e => (hk e).mono (le_of_eq ?_)⟩
  rw [value_tidings rfl (by simp), value_tidings (told_other h h' e) (by simp)]
  ring

theorem tidings_modify {f : App → App} {b : Block} {n : ℤ}
    (hf : ∀ app : App, (f app).currentUser = app.currentUser)
    (hb : (tidings own u s).AtMost t b n) : (tidings own u s).AtMost t (.modify f b) n := by
  refine ⟨fun _ app happ ht => (hf app).trans (happ ht), hb.mono (le_of_eq ?_)⟩
  rw [value_tidings rfl (by simp)]
  ring

/-- The block that writes a notification of `u`, if somebody else is signed in. -/
def notice (u : Uid) (data : Uid → Env → Dictionary) : Block :=
  currentUid fun v =>
    if u != v then
      .global (.env fun e =>
        .write (.setData ⟨.userNotifications u, e.uuid⟩ (data v e)) (fun _ => .done) .done) .done
    else .done

/-- Somebody else's call writes one notification, one's own none. -/
theorem tidings_notice (ht : t.op.told own u = true) {data : Uid → Env → Dictionary} {b : Block}
    (hb : (tidings own u s).AtMost t b 0) :
    (tidings own u s).AtMost t (notice u data >> b) (s * (t.other u).toInt) := by
  intro app happ
  have hu : app.currentUser = t.actor := happ ht
  cases hact : t.actor with
  | none =>
      have hother : t.other u = false := by simp [Call.other, hact]
      simp only [hu, hact]
      exact hb.mono (by simp [hother])
  | some v =>
      cases huv : u != v with
      | false =>
          have hother : t.other u = false := by
            simp [Call.other, hact, (bne_eq_false_iff_eq.mp huv).symm]
          simp only [hu, hact, huv]
          exact hb.mono (by simp [hother])
      | true =>
          have hother : t.other u = true := by simp [Call.other, hact, Ne.symm (bne_iff_ne.mp huv)]
          simp only [hu, hact, huv, if_true]
          refine ⟨0, hb, fun e => ⟨0, le_refl _, fun r => le_of_eq ?_⟩⟩
          simp [tidings, balance, told, startedTelling, ht, hother]

theorem tidings_updateUserFeedAfterFollowing {user : User} {didFollow : Bool} :
    (tidings own u s).AtMost t (PostService.updateUserFeedAfterFollowing user didFollow) 0 := by
  intro app _
  cases hu : app.currentUser with
  | none => simp only [hu]; exact le_refl (0 : ℤ)
  | some v =>
      simp only [hu]
      refine ⟨0, le_refl _, ⟨0, le_refl _, fun (a : Option (List (DocId × Dictionary))) => ?_⟩⟩
      rw [value_tidings rfl (by simp)]
      cases a with
      | none => exact le_refl (0 : ℤ)
      | some documents =>
          refine (AtMost.forEach (fun x => ?_) (fun x => ?_) documents).1
          · split <;>
              exact tidings_write (by simp [DocWrite.ref]) (by simp [DocWrite.ref])
                (fun _ => le_refl (0 : ℤ)) (le_refl (0 : ℤ))
          · split <;> exact fun h => h

/-- A like is told if it goes through. -/
theorem tidings_likeWrites (ht : t.op.told own u = true) {v : Uid} (hv : t.actor = some v)
    {post : Post} {completion : Completion}
    (hc : (tidings own u s).AtMost t (completion none) (s * (t.other u).toInt))
    (hfail : ∀ e, (tidings own u s).AtMost t (completion (some e)) 0) :
    (tidings own u s).AtMost t (likeWrites post v completion) (s * (t.other u).toInt) := by
  refine ⟨0, le_refl _, ⟨s * (t.other u).toInt, ?_, fun r => le_of_eq ?_⟩⟩
  · refine tidings_write (by simp [DocWrite.ref]) (by simp [DocWrite.ref]) (fun _ => ?_)
      (le_refl (0 : ℤ))
    refine ⟨0, le_refl _, fun r => ?_⟩
    cases r with
    | none =>
        refine hc.mono (le_of_eq ?_)
        rw [value_tidings rfl (by simp), value_tidings (by simp [told]) (by simp)]
        ring
    | some e =>
        refine (hfail e).mono (le_of_eq ?_)
        simp [tidings, balance, told, startedTelling, ht, hv]
  · rw [value_tidings rfl (by simp), value_tidings rfl (by simp)]
    ring

theorem tidings_followWrites {v b : Uid} {n : ℤ} {completion : Completion}
    (hc : ∀ e, (tidings own u s).AtMost t (completion e) n) :
    (tidings own u s).AtMost t (followWrites v b completion) n := by
  refine ⟨0, le_refl _, ?_⟩
  refine AtMost.mono (n := n) ?_ (by linarith)
  refine tidings_write (by simp [DocWrite.ref]) (by simp [DocWrite.ref]) (fun _ => ?_)
    (le_refl (0 : ℤ))
  exact tidings_write (by simp [DocWrite.ref]) (by simp [DocWrite.ref]) hc (le_refl (0 : ℤ))

theorem uploadNotification_eq {user : User} {type : NotificationType} {post : Option Post} :
    NotificationService.uploadNotification u user type post =
      notice u fun v => postNotice v user type post := by
  cases post <;> rfl

theorem tidings_uploadNotification (ht : t.op.told own u = true) (user : User)
    (type : NotificationType) (post : Option Post) :
    (tidings own u s).AtMost t (NotificationService.uploadNotification u user type post)
      (s * (t.other u).toInt) := by
  rw [uploadNotification_eq, ← Code.andThen_done (notice u _)]
  exact tidings_notice ht (le_refl (0 : ℤ))

theorem tidings_onLike (ht : t.op.told own u = true) {i c : Nat} {post : Post} {user : User}
    (hpost : post.ownerUid = u) :
    (tidings own u s).AtMost t (FeedController.onLike i c post user none)
      (s * (t.other u).toInt) := by
  subst hpost
  exact tidings_modify (fun _ => rfl) (tidings_uploadNotification ht user .like (some post))

theorem tidings_onFollow (ht : t.op.told own u = true) {i : Nat} {user currentUser : User}
    (huser : user.uid = u) (e : Option FIRError) :
    (tidings own u s).AtMost t (ProfileController.onFollow i user currentUser e)
      (s * (t.other u).toInt) := by
  subst huser
  exact tidings_modify (fun _ => rfl)
    (tidings_notice ht tidings_updateUserFeedAfterFollowing)

theorem tidings_onComment (ht : t.op.told own u = true) {post : Post} {user : User}
    (hpost : post.ownerUid = u) (e : Option FIRError) :
    (tidings own u s).AtMost t (CommentController.onComment post user e)
      (s * (t.other u).toInt) := by
  subst hpost
  exact tidings_modify (f := loader false) (fun _ => rfl)
    (tidings_uploadNotification ht user .comment (some post))

theorem tidings_commentWrite {p : DocId} {comment : String} {user : User} {n : ℤ}
    {completion : Completion} (hc : ∀ e, (tidings own u s).AtMost t (completion e) n) :
    (tidings own u s).AtMost t (commentWrite comment p user completion) n := by
  refine ⟨0, le_refl _, fun v => ?_⟩
  rw [value_tidings rfl (by simp)]
  refine AtMost.mono (n := n) ?_ (by linarith)
  exact tidings_write (by simp [DocWrite.ref]) (by simp [DocWrite.ref]) hc (le_refl (0 : ℤ))

theorem tidings_action {a : Action} {app : App} (ha : ∀ i c, a ≠ .tapFollow i c)
    (hown : ∀ screen ∈ app.comments, own screen.post.postId = true → screen.post.ownerUid = u) :
    (tidings own u s).AtMost ⟨app.currentUser, a.op app⟩ (a.block.start app)
      (-(tidings own u s).value ⟨app.currentUser, a.op app⟩ .acted) := by
  by_cases ht : (a.op app).told own u = true
  · have hv : -(tidings own u s).value ⟨app.currentUser, a.op app⟩ .acted =
        s * (Call.other ⟨app.currentUser, a.op app⟩ u).toInt := by
      simp [tidings, balance, told, startedTelling, ht]
    rw [hv]
    have hs := a.starts app
    cases a with
    | tapLike i c =>
        have htap := likeTap i c app
        have hdid : ∀ post, (Action.tapLike i c).op app = .like post → post.didLike = false :=
          fun post h => didLike_of_op h
        generalize (Action.tapLike i c).op app = op at htap ht hdid ⊢
        generalize (Action.tapLike i c).block.start app = b at htap ⊢
        cases htap with
        | none => cases ht
        | @dropped _ post _ hop hguard =>
            rcases hop with rfl | rfl
            · rcases hguard with huser | ⟨hlike, -⟩
              · refine tidings_modify (fun _ => rfl) ?_
                simp only [Call.other, huser]
                exact (show (0 : ℤ) ≤ s * 0 by simp)
              · rw [hdid post rfl] at hlike
                cases hlike
            · cases ht
        | like _ _ huid _ =>
            refine tidings_modify (fun _ => rfl) (tidings_likeWrites ht huid (tidings_onLike ht ?_)
              fun e => le_refl (0 : ℤ))
            simpa [Op.told] using ht
        | unlike => cases ht
    | tapActionButton i =>
        have htap := profileTap i app
        generalize (Action.tapActionButton i).op app = op at htap ht ⊢
        generalize (Action.tapActionButton i).block.start app = b at htap ⊢
        cases htap with
        | none h =>
            rcases h with rfl | huser
            · cases ht
            · simp only [Call.other, huser]
              exact (show (0 : ℤ) ≤ s * 0 by simp)
        | follow => exact tidings_followWrites (tidings_onFollow ht (by simpa [Op.told] using ht))
        | unfollow => cases ht
    | tapFollow i c => exact absurd rfl (ha i c)
    | sendComment i comment =>
        have htap := commentTap i comment app
        generalize (Action.sendComment i comment).op app = op at htap ht ⊢
        generalize (Action.sendComment i comment).block.start app = b at htap ⊢
        cases htap with
        | none => cases ht
        | send hi _ =>
            refine tidings_modify (fun _ => rfl) (tidings_commentWrite (tidings_onComment ht ?_))
            exact hown _ (List.mem_of_getElem? hi) ht
    | _ =>
        generalize Action.op _ app = op at hs ht
        cases hs <;> cases ht
  · have hv : -(tidings own u s).value ⟨app.currentUser, a.op app⟩ .acted = 0 := by
      simp [tidings, balance, told, startedTelling, ht]
    rw [hv]
    refine atMost_other (fun _ h => absurd h ht) (fun o => ?_) (fun o => ?_) _
    · unfold told
      split <;> simp [ht]
    · unfold startedTelling
      split <;> simp [ht]

end

section

variable {D : Type} [DecidableEq D] {w w' : World village D} {e : Event village D} {u : Uid}

open Tally

/-- The name of the post was handed out to a call of `u`. -/
def ownedBy (log : Log D) (u : Uid) (p : DocId) : Bool :=
  log.any fun x =>
    match x.obs with
    | .supplied v => v.uuid = p && x.tag.actor = some u
    | _ => false

omit [DecidableEq D] in
theorem ownedBy_iff {log : Log D} {p : DocId} : ownedBy log u p = true ↔ Owner log p u := by
  simp only [ownedBy, List.any_eq_true, Owner]
  refine exists_congr fun x => and_congr_right fun _ => ?_
  cases x.obs <;> simp

/-- Nothing fails, nobody follows from a notification, which tells nobody, and
an account stays signed in until its call is done. -/
structure Attended (w : World village D) (e : Event village D) : Prop where
  noFailure : NoFailure w e
  profile : ∀ d i c, e ≠ .act d (.tapFollow i c)
  signedIn : ∀ d t, w.Active d t → t.op.tells = true → App.currentUser (w.devices d).loc = t.actor

theorem stored_told (hrun : Run NoFailure emptyWorld w) {x : Entry village D} (hx : x ∈ w.log) :
    storedIn (.userNotifications u) x.obs = told (ownedBy w.log u) u x.tag x.obs := by
  obtain ⟨d, t, o⟩ := x
  cases o with
  | wrote wr res =>
      cases wr with
      | setData r data =>
          obtain rfl := setData_accepted hrun _ hx r data res rfl
          have hmay := mayWrite_of_wrote hrun _ hx _ _ rfl
          simp only [storedIn, told, Option.isSome_none, Bool.and_false, Bool.false_and,
            Bool.or_false]
          by_cases hr : r.collection = .userNotifications u
          · have hnews : t.News w.log u := by
              obtain ⟨c, i⟩ := r
              cases hr
              exact hmay.entitled
            have htold : t.op.told (ownedBy w.log u) u = true := by
              rcases hnews with h | ⟨p, h, ho⟩ | ⟨post, h, hu, -⟩
              · simp [h, Op.told]
              · simp [h, Op.told, ownedBy_iff.mpr ho]
              · simp [h, Op.told, hu]
            simp [hr, htold]
          · simp [hr]
      | _ => rfl
  | _ => rfl

theorem tidings_of_run (hrun : Run Attended emptyWorld w) (s : ℤ) (d : D) :
    (tidings (ownedBy w.log u) u s).Tallied d w := by
  refine Run.inv_within (fun w₁ => Tally.Tallied (tidings (ownedBy w.log u) u s) d w₁)
    (tallied_of_idle rfl rfl rfl) hrun fun w₁ e w₂ hrun₁ h hok hs hlog => ?_
  refine h.step hs (fun a he => ?_) fun j htake _ htold => ?_
  · subst he
    refine tidings_action (fun i c ha => hok.profile d i c (by rw [ha])) ?_
    intro screen hscreen hown
    have hpost := ((sound_of_run hrun₁).code.loc d).comments screen hscreen
    exact (sound_of_run hrun).owner_unique (hpost.owner.mono (hs.log.trans hlog))
      (ownedBy_iff.mp hown)
  · exact hok.signedIn d _ (takes_active htake) (tells_of_told htold)

/-- Everybody is told of everything once: as soon as nothing is outstanding,
`u` has one notification for each call of somebody else that likes or
comments on a post of `u`, or follows `u`. -/
theorem notifications_exact (hrun : Run Attended emptyWorld w) (hidle : w.Idle) (u : Uid) :
    w.server.docs.count (.userNotifications u) =
      w.log.countP fun x => startedTelling (ownedBy w.log u) u x.tag x.obs := by
  have hsmooth : Run NoFailure emptyWorld w := hrun.mono fun _ _ hok => hok.noFailure
  calc w.server.docs.count (.userNotifications u)
      = w.log.countP fun x => storedIn (.userNotifications u) x.obs := count_stored hrun rfl
    _ = w.log.countP fun x => told (ownedBy w.log u) u x.tag x.obs :=
        List.countP_congr fun x hx => by rw [stored_told hsmooth hx]
    _ = w.log.countP fun x => startedTelling (ownedBy w.log u) u x.tag x.obs :=
        debits_eq_credits (tidings_of_run hrun) hidle

end

/-! ## A comment and a follow -/

theorem commentedPost_noFailure : Run NoFailure emptyWorld commentedPost := by
  unfold commentedPost
  iterate 2
    refine Policy.run_perform (fun _ _ h => noFailure_of_pick h) trivial ?_
  exact ownPost_noFailure

theorem comments_exact_commentedPost :
    commentedPost.server.docs.count (.comments "n3") =
      commentedPost.log.countP fun x => startedComment "n3" x.tag x.obs :=
  comments_exact commentedPost_noFailure
    (fun _ => (by decide : (commentedPost.devices ()).idle = true)) "n3"

example : commentedPost.server.docs.count (.comments "n3") = 1 := by decide

/-- Whoever's call notifies somebody is signed in. -/
def attended (w : World village Unit) (e : Event village Unit) : Bool :=
  ((w.devices ()).tags.all fun t =>
    !Op.tells (Call.op t) || App.currentUser (w.devices ()).loc == Call.actor t) &&
    match e with
    | .act _ (.tapFollow _ _) => false
    | .commit _ fail => Option.isNone fail
    | .answer _ _ (.fail _) | .notify _ _ (.fail _) => false
    | _ => true

theorem attended_of {w : World village Unit} {e : Event village Unit} (h : attended w e = true) :
    Attended w e := by
  simp only [attended, Bool.and_eq_true, List.all_eq_true, Bool.or_eq_true, Bool.not_eq_true',
    beq_iff_eq] at h
  obtain ⟨hsigned, h⟩ := h
  refine ⟨?_, ?_, fun d t ht htells => (hsigned t ht).resolve_left (by simp [htells])⟩
  · cases e with
    | commit d fail => simpa [NoFailure] using h
    | answer d i c => rintro err rfl; cases h
    | notify d i c => rintro err rfl; cases h
    | _ => trivial
  · rintro d i c rfl
    cases h

/-- Alice is told that Bob follows her. -/
theorem notifications_exact_aliceFollowed :
    aliceFollowed.server.docs.count (.userNotifications "n1") =
      aliceFollowed.log.countP fun x =>
        startedTelling (ownedBy aliceFollowed.log "n1") "n1" x.tag x.obs := by
  refine notifications_exact ?_ (fun _ => (by decide : (aliceFollowed.devices ()).idle = true)) "n1"
  unfold aliceFollowed
  iterate 9
    refine Policy.run_checks (fun _ _ => attended_of) (by decide) ?_
  exact .refl

example : aliceFollowed.server.docs.count (.userNotifications "n1") = 1 := by decide

end DogVillage
