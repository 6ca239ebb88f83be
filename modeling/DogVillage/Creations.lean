import DogVillage.AccountCalls
import DogVillage.Footprint
import DogVillage.Formats
import DogVillage.SoundRun

/-!
# A post is created once

An upload writes its post under an id that was handed out to it: no post
is written a second time, and a new one has no likes.
-/

namespace DogVillage

open Async

section

variable {p : DocId} {t : Call} {a : Action} {app : App}

/-! ## One document for each id -/

def wrotePost (p : DocId) (t : Call) : Obs sig → Bool
  | .wrote (.setData r _) _ => t.op = .upload ∧ r = ⟨.posts, p⟩
  | _ => false

/-- The id `p` is handed out to an upload. -/
def namedPost (p : DocId) (t : Call) : Obs sig → Bool
  | .supplied v => t.op = .upload ∧ v.uuid = p
  | _ => false

def creations (p : DocId) : Tally village :=
  Tally.balance (wrotePost p) (namedPost p) 1 fun _ _ => True

theorem creations_generous : (creations p).Generous where
  issued _ _ := le_refl _
  wrote t wr := ⟨none, by
    cases h : wrotePost p t (.wrote wr none) <;> simp [creations, Tally.balance, h, namedPost]⟩
  answered t q := by
    cases q with
    | createUser email password => exact ⟨.error .notFound, le_refl _⟩
    | signIn email password => exact ⟨.error .notFound, le_refl _⟩
    | _ => exact ⟨none, le_refl _⟩
  supplied t := ⟨⟨p ++ "'", ⟨0, 0⟩⟩, by simp [creations, Tally.balance, wrotePost, namedPost]⟩
  changed _ _ := le_refl _
  noted _ _ := le_refl _
  sees _ := ⟨{}, trivial⟩

/-- Code that writes no post. -/
theorem creations_of_touches {b : Block} (h : Touches (· ≠ .posts) b) :
    (creations p).AtMost t b 0 := by
  refine Tally.AtMost.of_leads (fun _ => trivial) (h.leads (fun wr hwr => ?_) (fun _ _ => le_refl _)
    (fun v => ?_) (fun _ => le_refl _) fun _ => le_refl _)
  · refine ⟨le_refl _, fun r => ?_⟩
    have hd : wrotePost p t (.wrote wr r) = false := by
      cases wr with
      | setData ref data =>
          simp only [wrotePost, decide_eq_false_iff_not]
          rintro ⟨-, rfl⟩
          exact hwr rfl
      | _ => rfl
    simp [creations, Tally.balance, hd, namedPost]
  · cases h : namedPost p t (.supplied v) <;> simp [creations, Tally.balance, h, wrotePost]

theorem creations_uploadImage {image : UIImage} {completion : String → Block}
    (h : ∀ url, (creations p).AtMost t (completion url) 0) :
    (creations p).AtMost t (ImageUploader.uploadImage image completion) 0 := by
  have other : ∀ o : Obs sig, wrotePost p t o = false → namedPost p t o = false →
      (creations p).value t o = 0 := fun o hd hc => by simp [creations, Tally.balance, hd, hc]
  rw [ImageUploader.uploadImage]
  split
  · exact le_refl (0 : ℤ)
  · intro e
    have hle : (0 : ℤ) ≤ 0 - (creations p).value t (.supplied e) := by
      cases h : namedPost p t (.supplied e) <;> simp [creations, Tally.balance, h, wrotePost]
    refine Tally.AtMost.mono (n := 0) ⟨0, le_refl _, fun (error : Option FIRError) => ?_⟩ hle
    rw [other _ rfl rfl]
    cases error with
    | some _ => exact le_refl (0 : ℤ)
    | none =>
        refine ⟨0, le_refl _, fun (url : Option String) => ?_⟩
        rw [other _ rfl rfl]
        cases url with
        | none => exact le_refl (0 : ℤ)
        | some imageUrl => exact h imageUrl

theorem creations_uploadWrites (ht : t.op = .upload) {caption : String} {image : UIImage}
    {user : User} {uid : Uid} :
    (creations p).AtMost t
      (uploadWrites caption image user uid UploadPostController.onUpload) 0 := by
  refine ⟨0, le_refl _, creations_uploadImage fun url e => ⟨0, ?_, fun r => ?_⟩⟩
  · exact creations_of_touches (touches_updateUserFeedAfterPost fun _ => by simp)
  · refine (creations_of_touches (touches_onUpload r)).mono (le_of_eq ?_)
    by_cases he : e.uuid = p <;>
      simp [creations, Tally.balance, wrotePost, namedPost, ht, he]

theorem creations_action :
    (creations p).AtMost ⟨app.currentUser, a.op app⟩ (a.block.start app)
      (-(creations p).value ⟨app.currentUser, a.op app⟩ .acted) := by
  have hz : (creations p).value ⟨app.currentUser, a.op app⟩ .acted = 0 := by
    simp [creations, Tally.balance, wrotePost, namedPost]
  rw [hz, neg_zero]
  by_cases ht : a.op app = .upload
  · have hs := a.starts app
    rw [ht] at hs
    cases hs with
    | @upload i caption =>
        have htap := uploadTap i caption app
        generalize (Action.tapDone i caption).op app = op at htap ht ⊢
        generalize (Action.tapDone i caption).block.start app = b at htap ⊢
        cases htap with
        | none => exact le_refl (0 : ℤ)
        | dropped => exact ⟨fun h => h.elim, le_of_eq rfl⟩
        | upload => exact ⟨fun h => h.elim, creations_uploadWrites rfl⟩
  · refine atMost_other (fun _ => trivial) (fun o => ?_) (fun o => ?_) _
    · unfold wrotePost
      split <;> simp [ht]
    · unfold namedPost
      split <;> simp [ht]

end

section

variable {D : Type} [DecidableEq D] {w : World village D}
  {ok : World village D → Event village D → Prop}

theorem namedPost_once (hrun : Run ok emptyWorld w) (p : DocId) :
    (w.log.countP fun x => namedPost p x.tag x.obs) ≤ 1 := by
  refine (once_of_run (x := p) (fun w e w' hs => ?_) hrun).1
  rcases supplied_step hs with ⟨l, hlog, hl⟩ | ⟨d, t, v, hlog, hsup⟩
  · refine Or.inl ?_
    rw [hlog, List.countP_append, List.countP_eq_zero.mpr, Nat.zero_add]
    intro x hx
    cases ho : x.obs with
    | supplied v => exact absurd ho (hl x hx v)
    | _ => simp [namedPost]
  · by_cases hv : namedPost p t (.supplied v) = true
    · refine Or.inr ⟨by rw [hlog, List.countP_cons_of_pos (by exact hv)], ?_⟩
      simp only [namedPost, Bool.decide_and, Bool.and_eq_true, decide_eq_true_eq] at hv
      unfold Server.supply at hsup
      split at hsup
      · cases hsup
      · next hnew =>
          rw [← hv.2, ← Option.some.inj hsup]
          exact ⟨hnew, List.mem_cons_self⟩
    · exact Or.inl (by rw [hlog, List.countP_cons_of_neg (by exact hv)])

omit [DecidableEq D] in
theorem upload_of_sent (h : Sound False w) {d : D} {m : Sent village}
    (hm : m ∈ (w.devices d).writes) {p : DocId} {data : Dictionary}
    (hwr : m.write = .setData ⟨.posts, p⟩ data) : m.tag.op = .upload := by
  have hok : WriteOk False w.log m.tag m.write := ((h.code.held d).writes m hm).1
  rw [hwr] at hok
  exact hok.2

/-- The document of a post is written for the first time. -/
theorem not_stored_of_sent (hrun : Run ok emptyWorld w) {d : D} {m : Sent village}
    (hm : m ∈ (w.devices d).writes) {p : DocId} {data : Dictionary}
    (hwr : m.write = .setData ⟨.posts, p⟩ data) : ¬ Stored w.log p := by
  rintro ⟨x, hx, data', ho⟩
  have hsound := sound_of_run hrun
  have hop := upload_of_sent hsound hm hwr
  have htallied : ∀ d, (creations p).Tallied d w := fun d =>
    Tally.Tallied.of_run (fun a app => creations_action) (fun _ _ => trivial)
      (Tally.tallied_of_idle rfl rfl rfl) hrun
  have hfirst := Tally.first_of_sent creations_generous htallied (namedPost_once hrun p) hm
    (r := none) (by simp [wrotePost, hwr, hop]) rfl x hx
  simp [wrotePost, ho, (hsound.wrote x hx _ _ ho).2] at hfirst

/-! ## A new post has no likes -/

/-- What an upload writes. -/
inductive UploadWrite : Write → Prop
  | post {p data} (h : Dictionary.int data "likes" = 0) : UploadWrite (.setData ⟨.posts, p⟩ data)
  | feed {u p} : UploadWrite (.setData ⟨.userFeed u, p⟩ [])

theorem writes_didTapDone (i : Nat) (caption : String) :
    (Action.tapDone i caption).block.Writes UploadWrite := by
  refine Code.Under.writes (P := Issuing UploadWrite) (fun _ h => h)
    (Code.Under.get fun app _ => ?_)
  split
  · refine Code.Under.andThen ?_ (under_showLoader trivial)
    refine under_uploadPost plain_issuing (fun _ _ _ _ _ _ => sends_issuing (.post rfl))
      (fun _ _ => sends_issuing .feed) fun error => ?_
    have hnone : Touches (fun _ => False) (UploadPostController.onUpload error) :=
      touches_onUpload error
    exact hnone.under (fun _ h => h.elim) (fun _ _ => trivial) (fun _ => trivial)
      (fun _ => trivial) fun _ => trivial
  · trivial

/-- A post an upload goes on to write has no likes. -/
def Unliked (t : Call) : Obs sig → Prop
  | .issued wr | .wrote wr _ => t.op = .upload → ∀ p data, wr = .setData ⟨.posts, p⟩ data →
      Dictionary.int data "likes" = 0
  | _ => True

theorem unliked_action (a : Action) (app : App) :
    (a.block.start app).Under (fun _ => True) (fun _ _ => True)
      (Unliked ⟨app.currentUser, a.op app⟩) := by
  have of_writes : ∀ {b : Block} {W : Write → Prop}, b.Writes W →
      (∀ wr, W wr → Unliked ⟨app.currentUser, a.op app⟩ (.issued wr)) →
      b.Under (fun _ => True) (fun _ _ => True) (Unliked ⟨app.currentUser, a.op app⟩) :=
    fun h hW => h.under (fun wr hwr => ⟨hW wr hwr, fun _ => hW wr hwr⟩) (fun _ _ => trivial)
      (fun _ => trivial) (fun _ => trivial) fun _ => trivial
  by_cases ht : a.op app = .upload
  · have hs := a.starts app
    rw [ht] at hs
    cases hs with
    | @upload i caption =>
        refine of_writes (writes_didTapDone i caption).start ?_
        rintro wr hwr - p data rfl
        cases hwr with
        | post h => exact h
  · exact of_writes (touches_action a app) fun wr _ h => absurd h ht

theorem likes_of_sent (hrun : Run ok emptyWorld w) {d : D} {m : Sent village}
    (hm : m ∈ (w.devices d).writes) {p : DocId} {data : Dictionary}
    (hwr : m.write = .setData ⟨.posts, p⟩ data) : Dictionary.int data "likes" = 0 := by
  have hop := upload_of_sent (sound_of_run hrun) hm hwr
  have hunder : w.Under (fun _ => True) (fun _ _ => True) Unliked :=
    World.Under.of_run (fun _ _ _ _ _ => trivial)
      (fun d => ⟨trivial, Device.Under.of_idle rfl rfl⟩) (fun w d a _ _ => unliked_action a _)
      (fun _ _ _ _ _ _ _ _ _ => trivial) hrun
  exact (((hunder d).2.writes m hm none).1) hop p data hwr

end

end DogVillage
