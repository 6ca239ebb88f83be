import DogVillage.AccountCalls
import DogVillage.Authority

/-!
# What was written stays

Posts, comments and notifications are written under names that are handed
out for them, each to one call: no such document is written a second time.
Nothing updates or deletes a comment or a notification, and a post is only
updated in its likes. So a comment or a notification stays as it was
written, a post stays but for its likes until it is removed, and a post
that was removed never comes back.
-/

namespace DogVillage

open Async

/-- The document is written under a name handed out for it. -/
def Record (r : Ref Collection) : Prop :=
  r.collection = .posts ∨ r.collection.lasting = true

/-- A call of this kind writes records. -/
def Op.records : Op → Bool
  | .upload | .comment _ | .like _ | .follow _ => true
  | _ => false

section

variable {r : Ref Collection} {t : Call}

/-! ## One document for each name -/

def wroteRecord (r : Ref Collection) (t : Call) : Obs sig → Bool
  | .wrote (.setData r' _) _ => t.op.records && decide (r' = r)
  | _ => false

/-- The name of the record is handed out. -/
def namedRecord (r : Ref Collection) (t : Call) : Obs sig → Bool
  | .supplied v => t.op.records && decide (v.uuid = r.id)
  | _ => false

def recordings (r : Ref Collection) : Tally village :=
  Tally.balance (wroteRecord r) (namedRecord r) 1 fun _ _ => True

theorem recordings_generous : (recordings r).Generous where
  issued _ _ := le_refl _
  wrote t wr := ⟨none, by
    cases h : wroteRecord r t (.wrote wr none) <;> simp [recordings, Tally.balance, h, namedRecord]⟩
  answered t q := by
    cases q with
    | createUser email password => exact ⟨.error .notFound, le_refl _⟩
    | signIn email password => exact ⟨.error .notFound, le_refl _⟩
    | _ => exact ⟨none, le_refl _⟩
  supplied t := ⟨⟨r.id ++ "'", ⟨0, 0⟩⟩, by
    simp [recordings, Tally.balance, wroteRecord, namedRecord]⟩
  changed _ _ := le_refl _
  noted _ _ := le_refl _
  sees _ := ⟨{}, trivial⟩

theorem value_supplied_le (v : Env) : (recordings r).value t (.supplied v) ≤ 0 := by
  cases h : namedRecord r t (.supplied v) <;> simp [recordings, Tally.balance, h, wroteRecord]

theorem wroteRecord_other {w : Write} (hw : ∀ data, w ≠ .setData r data) (e : Option FIRError) :
    wroteRecord r t (.wrote w e) = false := by
  cases w with
  | setData r' data =>
      have hr : r' ≠ r := fun h => hw data (by rw [h])
      simp [wroteRecord, hr]
  | _ => rfl

theorem value_wrote {w : Write} (hw : ∀ data, w ≠ .setData r data) (e : Option FIRError) :
    (recordings r).value t (.wrote w e) = 0 := by
  simp [recordings, Tally.balance, wroteRecord_other hw e, namedRecord]

/-- Code that does not put the document in place. -/
theorem recordings_of_writes {b : Block}
    (h : b.Writes fun w : Write => ∀ data, w ≠ .setData r data) : (recordings r).AtMost t b 0 :=
  Tally.AtMost.of_leads (fun _ => trivial) (h.leads
    (fun _ hw => ⟨le_refl _, fun e => (value_wrote hw e).le⟩) (fun _ _ => le_refl _)
    value_supplied_le (fun _ => le_refl _) fun _ => le_refl _)

theorem recordings_of_touches {C : Collection → Prop} {b : Block} (h : Touches C b)
    (hC : ¬C r.collection) : (recordings r).AtMost t b 0 :=
  recordings_of_writes (h.mono fun w hw data hwr => hC (by rw [hwr] at hw; exact hw))

theorem recordings_write {w : Write} {k : Completion} {n : Block}
    (hw : ∀ data, w ≠ .setData r data) (hk : ∀ e, (recordings r).AtMost t (k e) 0)
    (hn : (recordings r).AtMost t n 0) : (recordings r).AtMost t (.write w k n) 0 := by
  refine ⟨0, hn, fun e => (hk e).mono ?_⟩
  rw [value_wrote hw]
  exact le_refl (0 : ℤ)

theorem recordings_global {b n : Block} (hb : (recordings r).AtMost t b 0)
    (hn : (recordings r).AtMost t n 0) : (recordings r).AtMost t (.global b n) 0 :=
  ⟨0, hn, hb.mono (le_refl (0 : ℤ))⟩

theorem recordings_andThen {b b' : Block} (h : (recordings r).AtMost t b 0)
    (h' : (recordings r).AtMost t b' 0) : (recordings r).AtMost t (b >> b') 0 :=
  (h'.andThen (fun _ _ => trivial) h).mono (le_refl (0 : ℤ))

/-- A document is put in place under a name handed out for it. -/
theorem recordings_named {c : Collection} {data : Env → Dictionary} {k : Completion}
    {n : Env → Block} (ht : t.op.records = true) (hk : ∀ e, (recordings r).AtMost t (k e) 0)
    (hn : ∀ v, (recordings r).AtMost t (n v) 0) :
    (recordings r).AtMost t
      (.env fun v => .write (.setData ⟨c, v.uuid⟩ (data v)) k (n v)) 0 := by
  refine fun v => ⟨0, hn v, fun e => (hk e).mono ?_⟩
  by_cases hr : (⟨c, v.uuid⟩ : Ref Collection) = r
  · subst hr
    simp [recordings, Tally.balance, wroteRecord, namedRecord, ht]
  · have hle := value_supplied_le (r := r) (t := t) v
    rw [value_wrote fun _ h => hr (by cases h; rfl)]
    show (0 : ℤ) ≤ 0 - (recordings r).value t (.supplied v) - 0 - 0 - 0
    linarith

theorem recordings_currentUid {k : Uid → Block} (hk : ∀ u, (recordings r).AtMost t (k u) 0) :
    (recordings r).AtMost t (currentUid k) 0 := by
  intro app _
  cases hu : app.currentUser with
  | none => simp only [hu]; exact le_refl (0 : ℤ)
  | some u => simp only [hu]; exact hk u

/-! ## The calls -/

theorem recordings_uploadImage {image : UIImage} {k : String → Block}
    (hk : ∀ url, (recordings r).AtMost t (k url) 0) :
    (recordings r).AtMost t (ImageUploader.uploadImage image k) 0 := by
  rw [ImageUploader.uploadImage]
  split
  · exact le_refl (0 : ℤ)
  · intro v
    have hle : (0 : ℤ) ≤ 0 - (recordings r).value t (.supplied v) := by
      linarith [value_supplied_le (r := r) (t := t) v]
    refine Tally.AtMost.mono (n := 0) ⟨0, le_refl _, fun (error : Option FIRError) => ?_⟩ hle
    cases error with
    | some _ => exact le_refl (0 : ℤ)
    | none =>
        refine ⟨0, le_refl _, fun (url : Option String) => ?_⟩
        cases url with
        | none => exact le_refl (0 : ℤ)
        | some imageUrl => exact hk imageUrl

/-- A notification, if it is not one's own. -/
theorem recordings_notice (ht : t.op.records = true) {own : Prop} [Decidable own] {c : Collection}
    {data : Env → Dictionary} :
    (recordings r).AtMost t
      (if own then .global (.env fun v =>
        .write (.setData ⟨c, v.uuid⟩ (data v)) (fun _ => .done) .done) .done else .done) 0 := by
  split
  · refine recordings_global (recordings_named ht (fun _ => ?_) fun _ => ?_) ?_
    all_goals exact le_refl (0 : ℤ)
  · exact le_refl (0 : ℤ)

theorem recordings_uploadNotification (ht : t.op.records = true) {uid : Uid} {user : User}
    {type : NotificationType} {post : Option Post} :
    (recordings r).AtMost t (NotificationService.uploadNotification uid user type post) 0 :=
  recordings_currentUid fun _ => recordings_notice ht

theorem recordings_uploadFollowNotification (ht : t.op.records = true) {uid : Uid} {user : User}
    {type : NotificationType} :
    (recordings r).AtMost t (NotificationService.uploadFollowNotification uid user type) 0 :=
  recordings_currentUid fun _ => recordings_notice ht

theorem recordings_onLike (ht : t.op.records = true) {i c : Nat} {post : Post} {user : User}
    (e : Option FIRError) : (recordings r).AtMost t (FeedController.onLike i c post user e) 0 := by
  cases e with
  | some _ => exact le_refl (0 : ℤ)
  | none =>
      exact recordings_andThen (recordings_of_writes (b := FeedController.modify i _) trivial)
        (recordings_uploadNotification ht)

theorem recordings_modify {f : App → App} {b : Block} (h : (recordings r).AtMost t b 0) :
    (recordings r).AtMost t (.modify f b) 0 :=
  ⟨fun _ _ _ => trivial, h.mono (le_refl (0 : ℤ))⟩

variable (hr : Record r)

include hr

theorem record_ne {c : Collection} {i : DocId} {data : Dictionary}
    (hc : c ≠ .posts ∧ c.lasting = false) (data' : Dictionary) :
    (DocWrite.setData ⟨c, i⟩ data : Write) ≠ .setData r data' := by
  intro h
  cases h
  rcases hr with hposts | hl
  · exact hc.1 hposts
  · rw [hc.2] at hl
    cases hl

theorem recordings_likeWrites {post : Post} {uid : Uid} {completion : Completion}
    (hc : ∀ e, (recordings r).AtMost t (completion e) 0) :
    (recordings r).AtMost t (likeWrites post uid completion) 0 := by
  refine recordings_global ?_ (le_refl (0 : ℤ))
  refine recordings_write (fun _ h => by cases h) (fun _ => le_refl (0 : ℤ)) ?_
  refine recordings_write (record_ne hr ⟨by simp, rfl⟩) (fun _ => ?_) (le_refl (0 : ℤ))
  exact recordings_write (record_ne hr ⟨by simp, rfl⟩) hc (le_refl (0 : ℤ))

theorem recordings_followWrites {v b : Uid} {completion : Completion}
    (hc : ∀ e, (recordings r).AtMost t (completion e) 0) :
    (recordings r).AtMost t (followWrites v b completion) 0 := by
  refine recordings_global ?_ (le_refl (0 : ℤ))
  refine recordings_write (record_ne hr ⟨by simp, rfl⟩) (fun _ => ?_) (le_refl (0 : ℤ))
  exact recordings_write (record_ne hr ⟨by simp, rfl⟩) hc (le_refl (0 : ℤ))

theorem recordings_onFollow (ht : t.op.records = true) {i : Nat} {user currentUser : User}
    (e : Option FIRError) :
    (recordings r).AtMost t (ProfileController.onFollow i user currentUser e) 0 := by
  refine recordings_andThen (recordings_of_writes (b := ProfileController.modify i _) trivial)
    (recordings_andThen (recordings_uploadFollowNotification ht) ?_)
  refine recordings_of_touches (C := fun c => ∃ u, c = .userFeed u)
    (touches_updateUserFeedAfterFollowing fun u => ⟨u, rfl⟩) ?_
  rintro ⟨u, hu⟩
  rcases hr with h | h <;> rw [hu] at h <;> cases h

theorem recordings_uploadWrites (ht : t.op.records = true) {caption : String} {image : UIImage}
    {user : User} {uid : Uid} :
    (recordings r).AtMost t
      (uploadWrites caption image user uid UploadPostController.onUpload) 0 := by
  refine recordings_global (recordings_uploadImage fun url => recordings_named ht (fun e => ?_)
    fun v => ?_) (le_refl (0 : ℤ))
  · exact recordings_of_touches (C := fun _ => False) (touches_onUpload e) id
  · refine recordings_of_touches (C := fun c => ∃ u, c = .userFeed u)
      (touches_updateUserFeedAfterPost fun u => ⟨u, rfl⟩) ?_
    rintro ⟨u, hu⟩
    rcases hr with h | h <;> rw [hu] at h <;> cases h

theorem recordings_action {a : Action} {app : App} :
    (recordings r).AtMost ⟨app.currentUser, a.op app⟩ (a.block.start app)
      (-(recordings r).value ⟨app.currentUser, a.op app⟩ .acted) := by
  have hz : (recordings r).value ⟨app.currentUser, a.op app⟩ .acted = 0 := by
    simp [recordings, Tally.balance, wroteRecord, namedRecord]
  rw [hz, neg_zero]
  by_cases ht : (a.op app).records = true
  · have hs := a.starts app
    cases a with
    | tapLike i c =>
        have htap := likeTap i c app
        generalize (Action.tapLike i c).op app = op at htap ht ⊢
        generalize (Action.tapLike i c).block.start app = b at htap ⊢
        cases htap with
        | none => exact le_refl (0 : ℤ)
        | dropped => exact recordings_modify (le_refl (0 : ℤ))
        | like => exact recordings_modify (recordings_likeWrites hr (recordings_onLike ht))
        | unlike => cases ht
    | tapActionButton i =>
        have htap := profileTap i app
        generalize (Action.tapActionButton i).op app = op at htap ht ⊢
        generalize (Action.tapActionButton i).block.start app = b at htap ⊢
        cases htap with
        | none => exact le_refl (0 : ℤ)
        | follow => exact recordings_followWrites hr (recordings_onFollow hr ht)
        | unfollow => cases ht
    | tapFollow i c =>
        have htap := notificationTap i c app
        generalize (Action.tapFollow i c).op app = op at htap ht ⊢
        generalize (Action.tapFollow i c).block.start app = b at htap ⊢
        cases htap with
        | none => exact le_refl (0 : ℤ)
        | dropped => exact recordings_modify (le_refl (0 : ℤ))
        | follow =>
            exact recordings_modify (recordings_followWrites hr fun e =>
              recordings_of_writes (b := NotificationController.onTap i c e) trivial)
        | unfollow => cases ht
    | sendComment i comment =>
        have htap := commentTap i comment app
        generalize (Action.sendComment i comment).op app = op at htap ht ⊢
        generalize (Action.sendComment i comment).block.start app = b at htap ⊢
        cases htap with
        | none => exact le_refl (0 : ℤ)
        | send =>
            refine recordings_modify (recordings_global (recordings_named ht (fun e => ?_)
              fun _ => le_refl (0 : ℤ)) (le_refl (0 : ℤ)))
            exact recordings_andThen (recordings_of_writes (b := showLoader false) trivial)
              (recordings_uploadNotification ht)
    | tapDone i caption =>
        have htap := uploadTap i caption app
        generalize (Action.tapDone i caption).op app = op at htap ht ⊢
        generalize (Action.tapDone i caption).block.start app = b at htap ⊢
        cases htap with
        | none => exact le_refl (0 : ℤ)
        | dropped => exact recordings_modify (le_refl (0 : ℤ))
        | upload => exact recordings_modify (recordings_uploadWrites hr ht)
    | _ =>
        generalize Action.op _ app = op at hs ht
        cases hs <;> cases ht
  · refine atMost_other (fun _ => trivial) (fun o => ?_) (fun o => ?_) _
    · unfold wroteRecord
      split <;> simp [ht]
    · unfold namedRecord
      split <;> simp [ht]

end

/-! ## Runs -/

section

variable {D : Type} [DecidableEq D] {w w' : World village D} {e : Event village D}
  {r : Ref Collection} {ok ok' : World village D → Event village D → Prop}

/-- A name is handed out at most once. -/
theorem supplied_once {kind : Entry village D → Bool} (name : String)
    (hkind : ∀ x, kind x = true → ∃ v : Env, x.obs = .supplied v ∧ v.uuid = name)
    (hrun : Run ok emptyWorld w) : w.log.countP kind ≤ 1 := by
  refine (once_of_run (x := name) (fun w e w' hs => ?_) hrun).1
  rcases supplied_step hs with ⟨l, hlog, hl⟩ | ⟨d, t, v, hlog, hsup⟩
  · refine Or.inl ?_
    rw [hlog, List.countP_append, List.countP_eq_zero.mpr, Nat.zero_add]
    intro x hx hk
    obtain ⟨v, ho, -⟩ := hkind x hk
    exact hl x hx v ho
  · by_cases hk : kind ⟨d, t, .supplied v⟩ = true
    · refine Or.inr ⟨by rw [hlog, List.countP_cons_of_pos hk], ?_⟩
      obtain ⟨v', ho, rfl⟩ := hkind _ hk
      cases ho
      unfold Server.supply at hsup
      split at hsup
      · cases hsup
      · next hnew =>
          rw [← Option.some.inj hsup]
          exact ⟨hnew, List.mem_cons_self⟩
    · exact Or.inl (by rw [hlog, List.countP_cons_of_neg (by exact hk)])

theorem namedRecord_once (hrun : Run ok emptyWorld w) (r : Ref Collection) :
    (w.log.countP fun x => namedRecord r x.tag x.obs) ≤ 1 := by
  refine supplied_once r.id (fun x hx => ?_) hrun
  unfold namedRecord at hx
  split at hx
  · next v ho => exact ⟨v, ho, by simpa using (Bool.and_eq_true_iff.mp hx).2⟩
  · cases hx

omit [DecidableEq D] in
/-- A record is put in place by a call that writes records. -/
theorem records_of_mayWrite {log : Log D} {t : Call} {data : Dictionary} (hr : Record r)
    (hok : WriteOk False log t (.setData r data)) (hmay : MayWrite log t (.setData r data)) :
    t.op.records = true := by
  obtain ⟨c, i⟩ := r
  cases c with
  | posts => rw [show t.op = .upload from hok.2]; rfl
  | comments p => rw [show t.op = .comment p from hmay.entitled]; rfl
  | userNotifications u =>
      rcases hmay.entitled with h | ⟨p, h, -⟩ | ⟨post, h, -⟩ <;> rw [h] <;> rfl
  | _ => rcases hr with hr | hr <;> cases hr

theorem mayWrite_of_wrote (hrun : Run ok emptyWorld w) :
    ∀ x ∈ w.log, ∀ wr res, x.obs = .wrote wr res → MayWrite w.log x.tag wr := by
  induction hrun with
  | refl => exact fun x hx => by cases hx
  | @step w w' e hrun _ hstep ih =>
      intro x hx wr res ho
      have hs := stepped_of_step hstep
      rcases wrote_of_step hs hx ho with hx | ⟨_, m, ms, -, hw, ht, rfl, -⟩
      · exact (ih x hx wr res ho).mono hs.log
      · rw [← ht]
        exact (mayWrite_of_sent hrun (by rw [hw]; exact List.mem_cons_self)).mono hs.log

/-- A record is put in place for the first time. -/
theorem new_of_sent (hrun : Run ok emptyWorld w) (hr : Record r) {d : D} {m : Sent village}
    (hm : m ∈ (w.devices d).writes) {data : Dictionary} (hwr : m.write = .setData r data) :
    ¬Existed w r := by
  rintro ⟨x, hx, data', ho⟩
  have hsound := sound_of_run hrun
  have hrec : m.tag.op.records = true := by
    have hmay := mayWrite_of_sent hrun hm
    have hok : WriteOk False w.log m.tag m.write := ((hsound.code.held d).writes m hm).1
    rw [hwr] at hmay hok
    exact records_of_mayWrite hr hok hmay
  have hrec' : x.tag.op.records = true :=
    records_of_mayWrite hr (hsound.wrote x hx _ _ ho) (mayWrite_of_wrote hrun x hx _ _ ho)
  have htallied : ∀ d, (recordings r).Tallied d w := fun d =>
    Tally.Tallied.of_run (fun a app => recordings_action hr) (fun _ _ => trivial)
      (Tally.tallied_of_idle rfl rfl rfl) hrun
  have hfirst := Tally.first_of_sent recordings_generous htallied (namedRecord_once hrun r) hm
    (r := none) (by simp [wroteRecord, hwr, hrec]) rfl x hx
  simp [wroteRecord, ho, hrec'] at hfirst

/-- Of the writes a device has sent, one at most puts the record in place:
those before it and it itself may be settled first. -/
theorem sent_once (hr : Record r) {d : D} {m m' : Sent village} {data : Dictionary}
    (hwr : m.write = .setData r data) : ∀ {pre post : List (Sent village)} {w : World village D},
    Run (fun _ _ => True) emptyWorld w → (w.devices d).writes = pre ++ m :: post → m' ∈ post →
      ∀ data', m'.write ≠ .setData r data'
  | [], post, w, hrun, hw, hm', data', hwr' => by
      obtain ⟨w₁, hstep, hpost, hlog⟩ := step_commit none hw
      refine new_of_sent (hrun.step trivial hstep) hr (d := d) (by rw [hpost]; exact hm') hwr' ?_
      refine ⟨_, by rw [hlog]; exact List.mem_cons_self, data, ?_⟩
      rw [hwr]
      rfl
  | _ :: pre, post, w, hrun, hw, hm', data', hwr' => by
      obtain ⟨w₁, hstep, hpre, -⟩ := step_commit (some FIRError.notFound) hw
      exact sent_once hr hwr (hrun.step trivial hstep) hpre hm' data' hwr'

/-- What a record may become: a comment or a notification stays as it is, a
post stays but for its likes, or is removed for good. -/
structure Outlives (r : Ref Collection) (old new : Option Dictionary) : Prop where
  lasting : r.collection.lasting = true → new = old
  fields : ∀ data', new = some data' → ∃ data, old = some data ∧
    ∀ key, key ≠ "likes" → data'.lookup key = data.lookup key

theorem Outlives.refl {x : Option Dictionary} : Outlives r x x :=
  ⟨fun _ => rfl, fun data h => ⟨data, h, fun _ _ => rfl⟩⟩

theorem Outlives.trans {x y z : Option Dictionary} (h : Outlives r x y) (h' : Outlives r y z) :
    Outlives r x z where
  lasting hl := (h'.lasting hl).trans (h.lasting hl)
  fields data hz := by
    obtain ⟨data₁, hy, heq⟩ := h'.fields data hz
    obtain ⟨data₂, hx, heq'⟩ := h.fields data₁ hy
    exact ⟨data₂, hx, fun key hk => (heq key hk).trans (heq' key hk)⟩

/-- One step. -/
theorem outlives_step (hrun : Run ok emptyWorld w) (hs : Stepped w e w') (hr : Record r)
    (hex : Existed w r) : Outlives r (w.server.docs.get r) (w'.server.docs.get r) := by
  cases docsStep hs with
  | same hdocs =>
      rw [hdocs]
      exact .refl
  | @wrote d m ms _ hw _ hget =>
      have hm : m ∈ (w.devices d).writes := by rw [hw]; exact List.mem_cons_self
      rw [hget]
      split
      · next href =>
          have hmay := mayWrite_of_sent hrun hm
          have hok : WriteOk False w.log m.tag m.write :=
            (((sound_of_run hrun).code.held d).writes m hm).1
          have hnot : ∀ data, m.write ≠ .setData r data := fun data hwr =>
            new_of_sent hrun hr hm hwr hex
          have hlast : r.collection.lasting = false := by
            refine Bool.eq_false_iff.mpr fun hl => ?_
            obtain ⟨data, hwr⟩ := hmay.lasting (by rw [← href]; exact hl)
            exact hnot data (by rw [hwr, ← href])
          refine ⟨fun hl => absurd hl (by rw [hlast]; decide), fun data' hnew => ?_⟩
          cases hwr : m.write with
          | setData r' data =>
              rw [hwr] at href
              exact absurd (by rw [hwr, href]; rfl) (hnot data)
          | delete r' =>
              rw [hwr] at hnew
              cases hnew
          | updateData r' data =>
              rw [hwr] at hnew href hok
              obtain ⟨old, hold, rfl⟩ := Option.map_eq_some_iff.mp hnew
              refine ⟨old, hold, fun key hk => ?_⟩
              obtain ⟨c, i⟩ := r
              cases href
              have hposts : c = .posts := hr.resolve_right fun h => by
                rw [hlast] at h
                cases h
              subst hposts
              obtain ⟨n, rfl, -, -⟩ := hok
              have hne : (key == "likes") = false := by simpa using hk
              simp [List.lookup_cons, hne]
      · exact .refl

theorem outlives_of_run (hrun : Run ok emptyWorld w) (hrun' : Run ok' w w') (hr : Record r)
    (hex : Existed w r) : Outlives r (w.server.docs.get r) (w'.server.docs.get r) := by
  induction hrun' with
  | refl => exact .refl
  | @step w₁ w₂ e hrun₁ _ hstep ih =>
      have htotal : Run (fun _ _ => True) emptyWorld w₁ :=
        (hrun.mono fun _ _ _ => trivial).trans (hrun₁.mono fun _ _ _ => trivial)
      obtain ⟨x, hx, data, ho⟩ := hex
      exact ih.trans (outlives_step htotal (stepped_of_step hstep) hr
        ⟨x, hrun₁.log.subset hx, data, ho⟩)

/-- A comment or a notification that is there stays as it is, whatever
happens. -/
theorem lasting_kept (hrun : Run ok emptyWorld w) (hrun' : Run ok' w w')
    (hr : r.collection.lasting = true) {data : Dictionary} (hget : w.server.docs.get r = some data) :
    w'.server.docs.get r = some data := by
  have h := outlives_of_run hrun hrun' (Or.inr hr) (existed_of_present hrun hget)
  rw [h.lasting hr, hget]

/-- A post that was written keeps all but its likes as long as it is there,
and never comes back once it is gone. -/
theorem post_outlives (hrun : Run ok emptyWorld w) (hrun' : Run ok' w w') {p : DocId}
    (hex : Existed w ⟨.posts, p⟩) {data' : Dictionary}
    (hget : w'.server.docs.get ⟨.posts, p⟩ = some data') :
    ∃ data, w.server.docs.get ⟨.posts, p⟩ = some data ∧
      ∀ key, key ≠ "likes" → data'.lookup key = data.lookup key :=
  (outlives_of_run hrun hrun' (Or.inl rfl) hex).fields data' hget

/-- A deletion of the post was carried out. -/
def Removed (log : Log D) (p : DocId) : Prop :=
  ∃ x ∈ log, x.obs = .wrote (.delete ⟨.posts, p⟩) none

omit [DecidableEq D] in
theorem Removed.mono {log log' : Log D} {p : DocId} (h : log <:+ log') (hp : Removed log p) :
    Removed log' p := by
  obtain ⟨x, hx, ho⟩ := hp
  exact ⟨x, h.subset hx, ho⟩

/-- A post is removed after it was written. -/
theorem existed_of_removed (hrun : Run ok emptyWorld w) {p : DocId} (h : Removed w.log p) :
    Existed w ⟨.posts, p⟩ := by
  obtain ⟨x, hx, ho⟩ := h
  have hop : x.tag.op = .remove p ∨ x.tag.op = .delete :=
    ((sound_of_run hrun).wrote x hx _ _ ho).1
  rcases (mayWrite_of_wrote hrun x hx _ _ ho).entitled with
    ⟨hup | ⟨-, hstored⟩, -⟩ | ⟨v, post, -, hlike⟩ | ⟨-, hstored⟩
  · rw [hup] at hop
    rcases hop with hop | hop <;> cases hop
  · exact hstored
  · rcases hlike with h | h <;> rw [h] at hop <;> rcases hop with hop | hop <;> cases hop
  · exact hstored

/-- A post that was removed is not there. -/
theorem absent_of_removed (hrun : Run ok emptyWorld w) {p : DocId} :
    Removed w.log p → w.server.docs.get ⟨.posts, p⟩ = none := by
  induction hrun with
  | refl => rintro ⟨_, hx, -⟩; cases hx
  | @step w w' e hrun _ hstep ih =>
      have hs := stepped_of_step hstep
      have gone : Removed w.log p → w'.server.docs.get ⟨.posts, p⟩ = none := fun h => by
        refine Option.eq_none_iff_forall_ne_some.mpr fun data hget => ?_
        obtain ⟨old, hold, -⟩ := (outlives_step hrun hs (Or.inl rfl)
          (existed_of_removed hrun h)).fields data hget
        rw [ih h] at hold
        cases hold
      rintro ⟨x, hx, ho⟩
      cases docsStep hs with
      | same _ hlog => exact gone ⟨x, hlog x hx _ ho, ho⟩
      | wrote _ _ hlog hget =>
          rw [hlog] at hx
          rcases List.mem_cons.mp hx with rfl | hx
          · have hwr := (Obs.wrote.inj ho).1
            rw [hget, hwr]
            exact (if_pos rfl).trans rfl
          · exact gone ⟨x, hx, ho⟩

end

/-- Alice comments on her post. -/
def commentedPost : World village Unit :=
  ownPost
    |> smooth.perform () (.tapComment 0 0) 100
    |> smooth.perform () (.sendComment 0 "good dog") 100

/-- Then she likes it. -/
def commentedPostLiked : World village Unit := smooth.perform () (.tapLike 0 0) 100 commentedPost

theorem commentedPost_reached : Run (fun _ _ => True) emptyWorld commentedPost := by
  unfold commentedPost
  iterate 2 refine Policy.run_perform (fun _ _ _ => trivial) trivial ?_
  exact ownPost_reached.mono fun _ _ _ => trivial

theorem commentedPostLiked_reached : Run (fun _ _ => True) commentedPost commentedPostLiked :=
  Policy.run_perform (fun _ _ _ => trivial) trivial .refl

theorem lasting_kept_commentedPost :
    ∃ data, commentedPost.server.docs.get ⟨.comments "n3", "n6"⟩ = some data ∧
      commentedPostLiked.server.docs.get ⟨.comments "n3", "n6"⟩ = some data := by
  have h : (commentedPost.server.docs.get ⟨.comments "n3", "n6"⟩).isSome = true := by decide
  obtain ⟨data, hget⟩ := Option.isSome_iff_exists.mp h
  exact ⟨data, hget, lasting_kept commentedPost_reached commentedPostLiked_reached rfl hget⟩

theorem post_outlives_commentedPost :
    ∃ data' : Dictionary, commentedPostLiked.server.docs.get ⟨.posts, "n3"⟩ = some data' ∧
      ∃ data, commentedPost.server.docs.get ⟨.posts, "n3"⟩ = some data ∧
        ∀ key, key ≠ "likes" → data'.lookup key = data.lookup key := by
  have h : (commentedPostLiked.server.docs.get ⟨.posts, "n3"⟩).isSome = true := by decide
  have h₀ : (commentedPost.server.docs.get ⟨.posts, "n3"⟩).isSome = true := by decide
  obtain ⟨data', hget⟩ := Option.isSome_iff_exists.mp h
  obtain ⟨data, hget₀⟩ := Option.isSome_iff_exists.mp h₀
  exact ⟨data', hget, post_outlives commentedPost_reached commentedPostLiked_reached
    (existed_of_present commentedPost_reached hget₀) hget⟩

end DogVillage
