import DogVillage.Calls
import DogVillage.Footprint
import DogVillage.SoundRun
import DogVillage.Async.Tally

/-!
# Notifications are written once

A notification carries its own id, fresh when it is sent, and no two are
sent with one id. So whatever is read of a notification, whenever, is the
same.
-/

namespace DogVillage

open Async

/-- A notification that says its id is `id` was written. -/
def noticeWritten (id : DocId) (_ : Call) : Obs sig → Bool
  | .wrote (.setData ⟨.userNotifications _, _⟩ data) none => Dictionary.string data "id" == id
  | _ => false

/-- The name `id` was handed out. -/
def nameSupplied (id : DocId) (_ : Call) : Obs sig → Bool
  | .supplied e => e.uuid == id
  | _ => false

/-- Notifications written under `id`, against the name handed out. -/
def notices (id : DocId) : Tally village :=
  Tally.balance (noticeWritten id) (nameSupplied id) 1 fun _ _ => True

section

variable {id : DocId} {t : Call} {i c : Nat}

open Tally

theorem notices_value {o : Obs sig} : (notices id).value t o =
    (noticeWritten id t o).toInt - (nameSupplied id t o).toInt := by
  simp [notices, balance]

/-- What writes no notification is worth nothing. -/
theorem notices_leads {b : Block} (h : b.Leads fun o => noticeWritten id t o = false) :
    (notices id).AtMost t b 0 := by
  refine AtMost.of_leads (fun _ => trivial) (h.mono fun o ho => ?_)
  rw [notices_value, ho]
  cases nameSupplied id t o <;> simp

theorem noticeWritten_other {wr : Write} {r : Option FIRError}
    (h : ∀ uid, (DocWrite.ref wr).collection ≠ .userNotifications uid) :
    noticeWritten id t (.wrote wr r) = false := by
  unfold noticeWritten
  split
  · next heq => cases heq; exact absurd rfl (h _)
  · rfl

theorem notices_touches {C : Collection → Prop} (hC : ∀ uid, ¬C (.userNotifications uid))
    {b : Block} (h : Touches C b) : (notices id).AtMost t b 0 :=
  notices_leads (h.leads (fun _ hwr => ⟨rfl, fun _ => noticeWritten_other fun uid hu =>
    hC uid (hu ▸ hwr)⟩) (fun _ _ => rfl) (fun _ => rfl) (fun _ => rfl) fun _ => rfl)

theorem notices_andThen {b b' : Block} (h : (notices id).AtMost t b 0)
    (h' : (notices id).AtMost t b' 0) : (notices id).AtMost t (b.andThen b') 0 :=
  (AtMost.andThen h' (fun _ _ => trivial) h).mono (by simp)

theorem notices_modify {f : App → App} {b : Block} (h : (notices id).AtMost t b 0) :
    (notices id).AtMost t (.modify f b) 0 :=
  ⟨fun _ _ _ => trivial, h.mono (by simp [notices_value, noticeWritten, nameSupplied])⟩

theorem notices_write {wr : Write} {handler : Completion} {b : Block}
    (hwr : ∀ uid, (DocWrite.ref wr).collection ≠ .userNotifications uid)
    (hh : ∀ e, (notices id).AtMost t (handler e) 0) (h : (notices id).AtMost t b 0) :
    (notices id).AtMost t (.write wr handler b) 0 := by
  refine ⟨0, h, fun r => (hh r).mono ?_⟩
  rw [notices_value, notices_value, noticeWritten_other hwr]
  simp [noticeWritten, nameSupplied]

theorem notices_global {b : Block} (h : (notices id).AtMost t b 0) :
    (notices id).AtMost t (.global b .done) 0 := ⟨0, le_refl _, h.mono (by simp)⟩

/-- A notification is written under the name it was handed. -/
theorem notices_send {uid : Uid} (data : Env → Dictionary)
    (h : ∀ e, (data e).string "id" = e.uuid) :
    (notices id).AtMost t (.global (.env fun e =>
      .write (.setData ⟨.userNotifications uid, e.uuid⟩ (data e)) (fun _ => .done) .done)
      .done) 0 := by
  refine ⟨0, le_refl _, fun e => ⟨0, le_refl _, fun r => ?_⟩⟩
  simp only [notices_value]
  cases r with
  | some err => cases hid : e.uuid == id <;> simp [noticeWritten, nameSupplied, AtMost, hid]
  | none => simp [noticeWritten, nameSupplied, AtMost, h]

theorem postNotice_id {currentUid : Uid} {fromUser : User} {type : NotificationType}
    {post : Option Post} (e : Env) :
    Dictionary.string (postNotice currentUid fromUser type post e) "id" = e.uuid := by
  cases post <;> rfl

theorem notices_uploadNotification {uid : Uid} {fromUser : User} {type : NotificationType}
    {post : Option Post} :
    (notices id).AtMost t (NotificationService.uploadNotification uid fromUser type post) 0 := by
  intro app _
  cases hu : app.currentUser with
  | none => simp only [hu]; exact le_refl (0 : ℤ)
  | some currentUid =>
      simp only [hu]
      split
      · exact notices_send (postNotice currentUid fromUser type post) postNotice_id
      · exact le_refl (0 : ℤ)

theorem notices_uploadFollowNotification {uid : Uid} {fromUser : User} {type : NotificationType} :
    (notices id).AtMost t (NotificationService.uploadFollowNotification uid fromUser type) 0 := by
  intro app _
  cases hu : app.currentUser with
  | none => simp only [hu]; exact le_refl (0 : ℤ)
  | some currentUid =>
      simp only [hu]
      split
      · exact notices_send (NotificationService.notificationData fromUser.uid fromUser type)
          fun _ => rfl
      · exact le_refl (0 : ℤ)

/-! ## Every action -/

theorem notices_likeWrites {post : Post} {uid : Uid} {completion : Completion}
    (h : ∀ e, (notices id).AtMost t (completion e) 0) :
    (notices id).AtMost t (likeWrites post uid completion) 0 :=
  notices_global (notices_write (by simp [DocWrite.ref]) (fun _ => le_refl (0 : ℤ))
    (notices_write (by simp [DocWrite.ref])
      (fun _ => notices_write (by simp [DocWrite.ref]) h (le_refl (0 : ℤ))) (le_refl (0 : ℤ))))

theorem notices_onLike {post : Post} {user : User} (e : Option FIRError) :
    (notices id).AtMost t (FeedController.onLike i c post user e) 0 := by
  cases e with
  | some _ => exact le_refl (0 : ℤ)
  | none =>
      have h : (notices id).AtMost t
        (NotificationService.uploadNotification post.ownerUid user .like (some post)) 0 :=
        notices_uploadNotification
      exact notices_modify h

theorem notices_onFollow {user currentUser : User} (e : Option FIRError) :
    (notices id).AtMost t (ProfileController.onFollow i user currentUser e) 0 := by
  have hfeed : (notices id).AtMost t (PostService.updateUserFeedAfterFollowing user true) 0 :=
    notices_touches (C := fun k => ∃ u, k = .userFeed u) (by simp)
      (touches_updateUserFeedAfterFollowing fun u => ⟨u, rfl⟩)
  have hnote : (notices id).AtMost t
    (NotificationService.uploadFollowNotification user.uid currentUser .follow) 0 :=
    notices_uploadFollowNotification
  have h := notices_andThen hnote hfeed
  exact notices_modify h

theorem notices_onComment {post : Post} {user : User} (e : Option FIRError) :
    (notices id).AtMost t (CommentController.onComment post user e) 0 := by
  have h : (notices id).AtMost t
    (NotificationService.uploadNotification post.ownerUid user .comment (some post)) 0 :=
    notices_uploadNotification
  exact notices_modify h

theorem notices_action (a : Action) (app : App) : (notices id).AtMost t (a.block.start app) 0 := by
  by_cases hn : ∃ uid, a.touches (.userNotifications uid)
  case neg => exact notices_touches (fun uid h => hn ⟨uid, h⟩) (touches_action a app)
  obtain ⟨uid, hn⟩ := hn
  cases a with
  | tapLike i c =>
      have htap := likeTap i c app
      generalize (Action.tapLike i c).op app = op at htap
      generalize (Action.tapLike i c).block.start app = b at htap ⊢
      cases htap with
      | none => exact le_refl (0 : ℤ)
      | dropped => exact notices_modify (le_refl (0 : ℤ))
      | like => exact notices_modify (notices_likeWrites notices_onLike)
      | unlike =>
          refine notices_modify
            (notices_touches (C := (∀ uid, · ≠ .userNotifications uid)) (by simp) ?_)
          exact touches_unlikeWrites (by simp) (by simp) (by simp) touches_onUnlike
  | tapActionButton i =>
      have htap := profileTap i app
      generalize (Action.tapActionButton i).op app = op at htap
      generalize (Action.tapActionButton i).block.start app = b at htap ⊢
      cases htap with
      | none => exact le_refl (0 : ℤ)
      | follow =>
          exact notices_global (notices_write (by simp [DocWrite.ref])
            (fun _ => notices_write (by simp [DocWrite.ref]) notices_onFollow (le_refl (0 : ℤ)))
            (le_refl (0 : ℤ)))
      | unfollow =>
          refine notices_touches (C := (∀ uid, · ≠ .userNotifications uid)) (by simp) ?_
          exact touches_unfollowWrites (by simp) (by simp) (touches_onUnfollow (by simp))
  | sendComment i comment =>
      have htap := commentTap i comment app
      generalize (Action.sendComment i comment).op app = op at htap
      generalize (Action.sendComment i comment).block.start app = b at htap ⊢
      cases htap with
      | none => exact le_refl (0 : ℤ)
      | send =>
          refine notices_modify (notices_global fun v => ?_)
          refine AtMost.mono (n := 0) (notices_write (by simp [DocWrite.ref]) notices_onComment
            (le_refl (0 : ℤ))) ?_
          rw [notices_value]
          cases hv : nameSupplied id t (.supplied v) <;> simp [noticeWritten]
  | _ => exact hn.elim

theorem notices_nonneg {o : Obs sig} (h : nameSupplied id t o = false) :
    0 ≤ (notices id).value t o := by
  rw [notices_value, h]
  cases noticeWritten id t o <;> simp

theorem generous_notices : (notices id).Generous where
  issued _ _ := notices_nonneg rfl
  wrote _ _ := ⟨none, notices_nonneg rfl⟩
  answered _ q := by
    obtain ⟨a⟩ := nonempty_ans q
    exact ⟨a, notices_nonneg rfl⟩
  supplied _ := ⟨⟨id ++ "'", ⟨0, 0⟩⟩, notices_nonneg (by simp [nameSupplied])⟩
  changed _ _ := notices_nonneg rfl
  noted _ _ := notices_nonneg rfl
  sees _ := ⟨{}, trivial⟩

end

/-! ## Every run -/

section

variable {D : Type} [DecidableEq D] {w w' : World village D} {e : Event village D} {id : DocId}

open Tally

/-- A name is handed out once. -/
theorem countP_supplied_step (h : Sound False w) (hs : Stepped w e w')
    (hle : w.log.countP (fun x => nameSupplied id x.tag x.obs) ≤ 1) :
    w'.log.countP (fun x => nameSupplied id x.tag x.obs) ≤ 1 := by
  rcases supplied_step hs with ⟨l, hlog, hnone⟩ | ⟨d, t, v, hlog, hsup⟩
  · rw [hlog, List.countP_append, List.countP_eq_zero.mpr, Nat.zero_add]
    · exact hle
    · intro x hx
      have := hnone x hx
      unfold nameSupplied
      split
      · next v ho => exact absurd ho (this v)
      · simp
  · rw [hlog, List.countP_cons]
    split
    · next hv =>
        have hid : v.uuid = id := by simpa [nameSupplied] using hv
        -- a new name is not on the log yet
        have hnew : w.log.countP (fun x => nameSupplied id x.tag x.obs) = 0 := by
          refine List.countP_eq_zero.mpr fun x hx hsupp => ?_
          unfold nameSupplied at hsupp
          split at hsupp
          · next v' ho =>
              have hused := h.used x hx v' ho
              rw [beq_iff_eq.mp hsupp, ← hid] at hused
              unfold Server.supply at hsup
              split at hsup
              · cases hsup
              · next hfresh => exact hfresh hused
          · cases hsupp
        omega
    · omega

/-- Two of a kind count twice. -/
theorem two_le_countP {α : Type} {p : α → Bool} {x y : α} {l : List α} (hx : x ∈ l) (hy : y ∈ l)
    (hpx : p x = true) (hpy : p y = true) (hne : x ≠ y) : 2 ≤ l.countP p := by
  classical
  rw [List.countP_eq_length_filter]
  have hsub : [x, y] ⊆ l.filter p := by
    intro z hz
    rcases List.mem_pair.mp hz with rfl | rfl
    · exact List.mem_filter.mpr ⟨hx, hpx⟩
    · exact List.mem_filter.mpr ⟨hy, hpy⟩
  exact (List.subperm_of_subset (by simpa using hne) hsub).length_le

/-- A notification is written once: what was written under one id was
written in one place, with one content. -/
structure NoticesOnce (log : Log D) : Prop where
  same : ∀ x ∈ log, ∀ y ∈ log, ∀ r r' data data',
    x.obs = .wrote (.setData r data) none → y.obs = .wrote (.setData r' data') none →
    (∃ uid, r.collection = .userNotifications uid) →
    (∃ uid, r'.collection = .userNotifications uid) →
    Dictionary.string data "id" = Dictionary.string data' "id" → r = r' ∧ data = data'

theorem noticesOnce_of_run (hrun : Run (fun _ _ => True) emptyWorld w) : NoticesOnce w.log := by
  refine ⟨fun x hx y hy r r' data data' ho ho' hr hr' hid => ?_⟩
  obtain ⟨k, i⟩ := r
  obtain ⟨k', i'⟩ := r'
  obtain ⟨uid, rfl⟩ := hr
  obtain ⟨uid', rfl⟩ := hr'
  have hone : w.log.countP (fun x => nameSupplied (Dictionary.string data "id") x.tag x.obs) ≤ 1 := by
    have hboth : Sound False w ∧
        w.log.countP (fun x => nameSupplied (Dictionary.string data "id") x.tag x.obs) ≤ 1 :=
      hrun.inv (fun w => Sound False w ∧
          w.log.countP (fun x => nameSupplied (Dictionary.string data "id") x.tag x.obs) ≤ 1)
        ⟨sound_emptyWorld, Nat.zero_le _⟩
        fun w e w' h _ hs => ⟨h.1.step hs fun hf => hf.elim, countP_supplied_step h.1 hs h.2⟩
    exact hboth.2
  have hcount : ∀ d, count d (noticeWritten (Dictionary.string data "id")) w.log ≤
      count d (nameSupplied (Dictionary.string data "id")) w.log := by
    intro d
    have htally : (notices (Dictionary.string data "id")).Tallied d w :=
      Tallied.of_run (fun a l => by
        rw [show -(notices (Dictionary.string data "id")).value (village.ui a l).1 .acted = 0 by
          simp [notices, balance, noticeWritten, nameSupplied]]
        exact notices_action a l) (fun _ _ => trivial) (tallied_of_idle rfl rfl rfl) hrun
    have hle := htally.le generous_notices
    have heq : (notices (Dictionary.string data "id")).total d w.log = _ := total_balance w.log
    rw [heq] at hle
    omega
  have hwx : noticeWritten (Dictionary.string data "id") x.tag x.obs = true := by
    rw [ho]; simp [noticeWritten]
  have hwy : noticeWritten (Dictionary.string data "id") y.tag y.obs = true := by
    rw [ho', hid]; simp [noticeWritten]
  have hxy : x = y := by
    by_contra hne
    by_cases hd : x.device = y.device
    · have htwo : 2 ≤ count x.device (noticeWritten (Dictionary.string data "id")) w.log :=
        two_le_countP hx hy (by simp [hwx]) (by simp [hwy, hd]) hne
      have := hcount x.device
      have : count x.device (nameSupplied (Dictionary.string data "id")) w.log ≤
          w.log.countP fun x => nameSupplied (Dictionary.string data "id") x.tag x.obs := count_le
      omega
    · have h₁ := count_pos.mpr ⟨x, hx, rfl, hwx⟩
      have h₂ := count_pos.mpr ⟨y, hy, rfl, hwy⟩
      have := hcount x.device
      have := hcount y.device
      have := count_add_le (p := nameSupplied (Dictionary.string data "id")) (Ne.symm hd) w.log
      omega
  subst hxy
  rw [ho] at ho'
  have h := (Obs.wrote.inj ho').1
  cases h
  exact ⟨rfl, rfl⟩

/-- A stored notification was written as it is. -/
theorem notice_wrote (hrun : Run (fun _ _ => True) emptyWorld w) {uid : Uid} {i : DocId}
    {data : Dictionary} (hget : w.server.docs.get ⟨.userNotifications uid, i⟩ = some data) :
    ∃ x ∈ w.log, x.obs = .wrote (.setData ⟨.userNotifications uid, i⟩ data) none := by
  have hboth : Sound False w ∧ ∀ uid i data,
      w.server.docs.get ⟨.userNotifications uid, i⟩ = some data →
      ∃ x ∈ w.log, x.obs = .wrote (.setData ⟨.userNotifications uid, i⟩ data) none := by
    refine hrun.inv (fun w => Sound False w ∧ ∀ uid i data,
      w.server.docs.get ⟨.userNotifications uid, i⟩ = some data →
      ∃ x ∈ w.log, x.obs = .wrote (.setData ⟨.userNotifications uid, i⟩ data) none)
      ⟨sound_emptyWorld, by simp [emptyWorld]⟩ fun w e w' h _ hs =>
        ⟨h.1.step hs fun hf => hf.elim, fun uid i data hget => ?_⟩
    obtain ⟨hsound, hold⟩ := h
    cases docsStep hs with
    | same hdocs _ =>
        obtain ⟨x, hx, ho⟩ := hold uid i data (hdocs ▸ hget)
        exact ⟨x, hs.log.subset hx, ho⟩
    | @wrote d m ms he hw hlog hget' =>
        rw [hget'] at hget
        split at hget
        · next hr =>
            have hm := ((hsound.code.held d).writes m (by rw [hw]; exact List.mem_cons_self)).1
            cases hwr : m.write with
            | setData r data' =>
                rw [hwr] at hget hr hlog
                cases hget
                cases hr
                exact ⟨_, hlog ▸ List.mem_cons_self, rfl⟩
            | updateData r data' =>
                -- no notification is ever updated
                rw [hwr] at hm hr
                cases hr
                exact hm.elim
            | delete r => rw [hwr] at hget; cases hget
        · obtain ⟨x, hx, ho⟩ := hold uid i data hget
          exact ⟨x, hs.log.subset hx, ho⟩
  exact hboth.2 uid i data hget

/-- The notifications of a list have ids of their own. -/
theorem nodup_notices (hrun : Run (fun _ _ => True) emptyWorld w) {uid : Uid}
    {q : Query Collection Value} (hq : q.collection = .userNotifications uid) :
    ((w.server.docs.select q).map fun x => Dictionary.string x.2 "id").Nodup := by
  have honce := noticesOnce_of_run hrun
  refine List.Nodup.map_on ?_ (List.Nodup.of_map _ (w.server.docs.nodup_select q))
  rintro ⟨i, data⟩ hx ⟨j, data'⟩ hy hid
  have hgx := (Documents.mem_select.mp hx).1
  have hgy := (Documents.mem_select.mp hy).1
  rw [hq] at hgx hgy
  obtain ⟨x, hx, ho⟩ := notice_wrote hrun hgx
  obtain ⟨y, hy, ho'⟩ := notice_wrote hrun hgy
  obtain ⟨hr, hdata⟩ := honce.same x hx y hy _ _ data data' ho ho' ⟨uid, rfl⟩ ⟨uid, rfl⟩ hid
  cases hr
  rw [hdata]

/-- A notification's id tells who it is from. -/
theorem exists_sender (hrun : Run (fun _ _ => True) emptyWorld w) :
    ∃ sender : DocId → Uid, ∀ x ∈ w.log, ∀ uid i data,
      x.obs = .wrote (.setData ⟨.userNotifications uid, i⟩ data) none →
      Dictionary.string data "uid" = sender (Dictionary.string data "id") := by
  have honce := noticesOnce_of_run hrun
  have hone : ∀ id : DocId, ∃ u : Uid, ∀ x ∈ w.log, ∀ uid i data,
      x.obs = .wrote (.setData ⟨.userNotifications uid, i⟩ data) none →
      Dictionary.string data "id" = id → Dictionary.string data "uid" = u := by
    intro id
    by_cases hex : ∃ x ∈ w.log, ∃ uid i data,
        x.obs = .wrote (.setData ⟨.userNotifications uid, i⟩ data) none ∧
        Dictionary.string data "id" = id
    · obtain ⟨y, hy, uid', i', data', ho', hid'⟩ := hex
      refine ⟨Dictionary.string data' "uid", fun x hx uid i data ho hid => ?_⟩
      rw [(honce.same x hx y hy _ _ data data' ho ho' ⟨uid, rfl⟩ ⟨uid', rfl⟩
        (hid.trans hid'.symm)).2]
    · exact ⟨"", fun x hx uid i data ho hid => absurd ⟨x, hx, uid, i, data, ho, hid⟩ hex⟩
  choose sender hsender using hone
  exact ⟨sender, fun x hx uid i data ho => hsender _ x hx uid i data ho rfl⟩

end

end DogVillage
