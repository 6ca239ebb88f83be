import DogVillage.Comments
import DogVillage.Records

/-!
# The comments on the screen

The listener of `CommentService.fetchComments` adds up what its snapshots
report. A snapshot shows a device its own comments from the moment they are
sent, not only once they are stored. Comments are written once and stay; so,
unless a comment of the device is refused, what the listener has added up is
always the comments that were stored or on their way from the device when it
was last told: each of them once and no other, if not in their order. What
is on the screen stays there, and what is new stands below it.
-/

namespace DogVillage

open Async

namespace CommentService

/-! ## Results that grow -/

/-- The ids of a result's documents are distinct. -/
def Distinct (result : Result) : Prop := (result.map Prod.fst).Nodup

/-- A result that keeps the documents before it is these and the added ones. -/
theorem perm_added {before after : Result} (hbefore : Distinct before) (hafter : Distinct after)
    (hkept : before ⊆ after) : after.Perm (before ++ added before after) := by
  have hnew : ∀ x ∈ added before after, ∀ y ∈ before, y.1 ≠ x.1 := fun x hx y hy => by
    have hall := List.all_eq_true.mp (List.mem_filter.mp hx).2 y hy
    simpa using hall
  have hnodup : (before ++ added before after).Nodup := by
    refine List.Nodup.append hbefore.of_map (hafter.of_map.filter _) fun x hx hx' => ?_
    exact hnew x hx' x hx rfl
  refine (List.perm_ext_iff_of_nodup hafter.of_map hnodup).mpr fun x => ?_
  rw [List.mem_append]
  constructor
  · intro hx
    by_cases h : ∃ y ∈ before, y.1 = x.1
    · obtain ⟨y, hy, hid⟩ := h
      obtain rfl : y = x := List.inj_on_of_nodup_map hafter (hkept hy) hx hid
      exact Or.inl hy
    · refine Or.inr (List.mem_filter.mpr ⟨hx, List.all_eq_true.mpr fun y hy => ?_⟩)
      simpa using fun hid => h ⟨y, hy, hid⟩
  · rintro (hx | hx)
    · exact hkept hx
    · exact List.mem_of_mem_filter hx

/-- The listener has each comment of its last result once. -/
def Listed (l : Listener) : Prop := l.comments.Perm (comments l.result)

theorem Listed.step {l : Listener} {result : Result} {now : Timestamp} (hl : Listed l)
    (hup : Uploaded result) (hbefore : Distinct l.result) (hafter : Distinct result)
    (hkept : l.result ⊆ result) : Listed (l.step (.snapshot (some result) now)) := by
  have hnew : (comments result).Perm
      (comments l.result ++ comments (added l.result result)) := by
    rw [comments, comments, comments, ← List.map_append]
    exact (perm_added hbefore hafter hkept).map _
  rw [step_snapshot hup]
  exact (hl.append_right _).trans hnew.symm

theorem deliveries_listed : ∀ (events : List Event) (l : Listener), Listed l →
    (∀ r ∈ l.result :: results events, Uploaded r ∧ Distinct r) →
    (l.result :: results events).IsChain (· ⊆ ·) →
    ∀ x ∈ deliveries l events, x.result ∈ l.result :: results events ∧ Listed x
  | [], _, _, _, _ => fun x hx => by cases hx
  | .completion :: events, l, hl, hres, hgrows => by
      intro x hx
      rcases List.mem_cons.mp hx with rfl | hx
      · exact ⟨List.mem_cons_self, hl⟩
      · exact deliveries_listed events l hl hres hgrows x hx
  | .snapshot none _ :: events, l, hl, hres, hgrows => deliveries_listed events l hl hres hgrows
  | .snapshot (some result) now :: events, l, hl, hres, hgrows => by
      intro x hx
      obtain ⟨hkept, hgrows⟩ := List.isChain_cons_cons.mp hgrows
      have hnew := hres result (by simp [results])
      have hstep : Listed (l.step (.snapshot (some result) now)) :=
        hl.step hnew.1 (hres _ List.mem_cons_self).2 hnew.2 hkept
      obtain ⟨hmem, hlisted⟩ := deliveries_listed events _ hstep
        (fun r hr => hres r (List.mem_cons_of_mem _ hr)) hgrows x hx
      exact ⟨List.mem_cons_of_mem _ hmem, hlisted⟩

/-- A snapshot only adds below. -/
theorem comments_step (l : Listener) (e : Event) : l.comments <+: (l.step e).comments := by
  have hfold : ∀ now (changes : List DocumentChange) (cs : List Comment),
      cs <+: changes.foldl (append now) cs := by
    intro now changes
    induction changes with
    | nil => exact fun cs => List.prefix_refl cs
    | cons change changes ih =>
        intro cs
        refine List.IsPrefix.trans ?_ (ih (append now cs change))
        unfold append
        split
        · exact List.prefix_append ..
        · exact List.prefix_refl cs
  match e with
  | .snapshot (some _) now => exact hfold now _ l.comments
  | .snapshot none _ => exact List.prefix_refl _
  | .completion => exact List.prefix_refl _

theorem deliveries_below : ∀ (events : List Event) (l : Listener),
    (∀ x ∈ deliveries l events, l.comments <+: x.comments) ∧
      (deliveries l events).Pairwise fun x y => x.comments <+: y.comments
  | [], _ => ⟨fun _ hx => (List.not_mem_nil hx).elim, List.Pairwise.nil⟩
  | .completion :: events, l => by
      obtain ⟨hfirst, hrest⟩ := deliveries_below events l
      refine ⟨fun x hx => ?_, List.Pairwise.cons hfirst hrest⟩
      rcases List.mem_cons.mp hx with rfl | hx
      · exact List.prefix_refl _
      · exact hfirst x hx
  | .snapshot result now :: events, l => by
      obtain ⟨hfirst, hrest⟩ := deliveries_below events (l.step (.snapshot result now))
      exact ⟨fun x hx => (comments_step l _).trans (hfirst x hx), hrest⟩

/-! ## Comments in a run -/

/-- A comment that is put in place is as `uploadComment` writes it. -/
def AsUploaded : Write → Prop
  | .setData ⟨.comments _, _⟩ data => ∃ comment user now, data = commentData comment user now
  | _ => True

theorem asUploaded_other {w : Write} (h : ∀ p, w.ref.collection ≠ .comments p) : AsUploaded w := by
  obtain ⟨⟨c, i⟩, data⟩ | _ | _ := w
  · cases c with
    | comments p => exact absurd rfl (h p)
    | _ => trivial
  all_goals trivial

theorem asUploaded_of_touches {C : Collection → Prop} (hC : ∀ p, ¬C (.comments p)) {b : Block}
    (h : Touches C b) : b.Writes AsUploaded :=
  h.mono fun _ hw => asUploaded_other fun p hp => hC p (hp ▸ hw)

theorem asUploaded_action (a : Action) (app : App) : (a.block.start app).Writes AsUploaded := by
  cases a with
  | sendComment i comment =>
      have htap := commentTap i comment app
      generalize (Action.sendComment i comment).op app = op at htap
      generalize (Action.sendComment i comment).block.start app = b at htap ⊢
      cases htap with
      | none => trivial
      | @send post user _ _ =>
          refine ⟨fun e => ⟨⟨comment, user, e.now, rfl⟩, fun error => ?_, trivial⟩, trivial⟩
          exact asUploaded_of_touches (C := fun c => ∃ u, c = .userNotifications u) (by simp)
            (touches_onComment (fun u => ⟨u, rfl⟩) error)
  | _ => exact asUploaded_of_touches (by simp [Action.touches]) (touches_action _ app)

/-- The documents as `d` is shown them. -/
def seen {D : Type} (w : World village D) (d : D) : Documents Collection Value :=
  w.server.docs.overlay ((w.devices d).writes.map (·.write))

/-- No comment on `p` that was sent from `d` is refused. -/
def CommentsAccepted {D : Type} (d : D) (p : DocId) (w : World village D)
    (e : Async.Event village D) : Prop :=
  ∀ err m ms, e = .commit d (some err) → (w.devices d).writes = m :: ms →
    (DocWrite.ref m.write).collection ≠ .comments p

section

variable {D : Type} [DecidableEq D] {w w' : World village D} {d : D} {p id : DocId}
  {data : Dictionary} {e : Async.Event village D}
  {ok : World village D → Async.Event village D → Prop}

theorem asUploaded_of_sent (hrun : Run ok emptyWorld w) {m : Sent village}
    (hm : m ∈ (w.devices d).writes) : AsUploaded m.write :=
  sent_of_run (W := fun _ => AsUploaded) (fun _ => ⟨rfl, rfl⟩) asUploaded_action hrun hm

theorem commented_of_run (hrun : Run ok emptyWorld w) : Commented p w.server.docs := by
  induction hrun with
  | refl => exact fun id data h => by cases h
  | @step w w' e hrun _ hstep ih =>
      intro id data h
      cases docsStep (stepped_of_step hstep) with
      | same hdocs _ => exact ih id data (hdocs ▸ h)
      | @wrote d m ms _ hw _ hget =>
          rw [hget] at h
          split at h
          · next hr =>
              have hm : m ∈ (w.devices d).writes := by rw [hw]; exact List.mem_cons_self
              obtain ⟨data', hwr⟩ := (mayWrite_of_sent hrun hm).lasting (by rw [← hr]; rfl)
              have hup : AsUploaded m.write := asUploaded_of_sent hrun hm
              rw [← hr] at hwr
              rw [hwr] at h hup
              cases h
              exact hup
          · exact ih id data h

/-- A device sees the comments that are stored and those it has sent. -/
theorem get_seen (hrun : Run ok emptyWorld w) :
    (seen w d).get ⟨.comments p, id⟩ = some data ↔
      w.server.docs.get ⟨.comments p, id⟩ = some data ∨
        ∃ m ∈ (w.devices d).writes, m.write = .setData ⟨.comments p, id⟩ data := by
  have hlasting : Record ⟨.comments p, id⟩ := Or.inr rfl
  by_cases hsent : ∃ m ∈ (w.devices d).writes, (DocWrite.ref m.write) = ⟨.comments p, id⟩
  · -- its one write is what the device sees, and nothing is stored yet
    obtain ⟨m, hm, href⟩ := hsent
    obtain ⟨data₀, hwr⟩ := (mayWrite_of_sent hrun hm).lasting (by rw [href]; rfl)
    rw [href] at hwr
    obtain ⟨pre, post, hw⟩ := List.append_of_mem hm
    have hrun' : Run (fun _ _ => True) emptyWorld w := hrun.mono fun _ _ _ => trivial
    have hpost : ∀ m' ∈ post, (DocWrite.ref m'.write) ≠ ⟨.comments p, id⟩ := by
      intro m' hm' href'
      have hmem : m' ∈ (w.devices d).writes := by
        rw [hw]
        exact List.mem_append_right _ (List.mem_cons_of_mem _ hm')
      obtain ⟨data', hwr'⟩ := (mayWrite_of_sent hrun hmem).lasting (by rw [href']; rfl)
      rw [href'] at hwr'
      exact sent_once hlasting hwr hrun' hw hm' data' hwr'
    have hget : (seen w d).get ⟨.comments p, id⟩ = some data₀ := by
      rw [seen, hw, List.map_append, List.map_cons, hwr]
      exact Documents.get_overlay_last fun v hv => by
        obtain ⟨m', hm', rfl⟩ := List.mem_map.mp hv
        exact hpost m' hm'
    rw [hget]
    constructor
    · rintro ⟨rfl⟩
      exact Or.inr ⟨m, hm, hwr⟩
    · rintro (hstored | ⟨m', hm', hwr'⟩)
      · exact absurd (existed_of_present hrun hstored) (new_of_sent hrun hlasting hm hwr)
      · rw [hw] at hm'
        rcases List.mem_append.mp hm' with hpre | hm'
        · obtain ⟨l, l', hl⟩ := List.append_of_mem hpre
          have hsplit : (w.devices d).writes = l ++ m' :: (l' ++ m :: post) := by
            rw [hw, hl, List.append_assoc, List.cons_append]
          exact absurd hwr (sent_once hlasting hwr' hrun' hsplit (by simp) data₀)
        · rcases List.mem_cons.mp hm' with rfl | hm'
          · rw [hwr] at hwr'
            cases hwr'
            rfl
          · exact absurd (by rw [hwr']; rfl) (hpost m' hm')
  · have hother : (seen w d).get ⟨.comments p, id⟩ = w.server.docs.get ⟨.comments p, id⟩ :=
      Documents.get_overlay_other fun v hv href => by
        obtain ⟨m, hm, rfl⟩ := List.mem_map.mp hv
        exact hsent ⟨m, hm, href⟩
    rw [hother]
    refine ⟨Or.inl, fun h => h.resolve_right ?_⟩
    rintro ⟨m, hm, hwr⟩
    exact hsent ⟨m, hm, by rw [hwr]; rfl⟩

/-- What the device sees of the comments stays, unless one is refused. -/
theorem seen_step (hrun : Run ok emptyWorld w) (hok : CommentsAccepted d p w e)
    (hstep : step w e = some w') (h : (seen w d).get ⟨.comments p, id⟩ = some data) :
    (seen w' d).get ⟨.comments p, id⟩ = some data := by
  have hrun' : Run (fun _ _ => True) emptyWorld w' :=
    Run.step (hrun.mono fun _ _ _ => trivial) trivial hstep
  refine (get_seen hrun').mpr ?_
  rcases (get_seen hrun).mp h with hstored | ⟨m, hm, hwr⟩
  · have hone : Run (fun _ _ => True) w w' := Run.step .refl trivial hstep
    exact Or.inl (lasting_kept hrun hone rfl hstored)
  · rcases kept_or_settled (stepped_of_step hstep) hm with hm | ⟨fail, ms, rfl, hw⟩
    · exact Or.inr ⟨m, hm, hwr⟩
    · cases fail with
      | some err => exact absurd (by rw [hwr]; rfl) (hok err m ms rfl hw)
      | none =>
          refine Or.inl ?_
          cases docsStep (stepped_of_step hstep) with
          | same _ hlog =>
              obtain ⟨w₁, hstep₁, -, hlog₁⟩ := step_commit none hw
              rw [hstep] at hstep₁
              cases hstep₁
              -- the write is carried out, so it is new in the log
              have hmem : (⟨d, m.tag, .wrote m.write none⟩ : Entry village D) ∈ w'.log := by
                rw [hlog₁, hwr]
                exact List.mem_cons_self
              refine absurd ⟨_, hlog _ hmem _ rfl, data, ?_⟩
                (new_of_sent hrun (r := ⟨.comments p, id⟩) (Or.inr rfl) hm hwr)
              rw [hwr]
          | wrote he hw' _ hget =>
              cases he
              rw [hw] at hw'
              cases hw'
              rw [hget, hwr]
              exact (if_pos rfl).trans rfl

theorem seen_kept (hrun : Run ok emptyWorld w) (hruns : Run (CommentsAccepted d p) w w')
    (h : (seen w d).get ⟨.comments p, id⟩ = some data) :
    (seen w' d).get ⟨.comments p, id⟩ = some data := by
  induction hruns with
  | refl => exact h
  | step hbefore hok hstep ih =>
      have hrun₀ : Run (fun _ _ => True) emptyWorld w := hrun.mono fun _ _ _ => trivial
      exact seen_step (hrun₀.trans (hbefore.mono fun _ _ _ => trivial)) hok hstep ih

theorem run_of_chain {w : World village D} : ∀ {ws : List (World village D)} {w₀},
    (w₀ :: ws).IsChain (Run ok) → w ∈ w₀ :: ws → Run ok w₀ w
  | [], w₀, _, hw => by
      rw [List.mem_singleton.mp hw]
      exact .refl
  | w₁ :: ws, w₀, hruns, hw => by
      obtain ⟨hfirst, hrest⟩ := List.isChain_cons_cons.mp hruns
      rcases List.mem_cons.mp hw with rfl | hw
      · exact .refl
      · exact hfirst.trans (run_of_chain hrest hw)

/-- No comment a device is shown is missing from what it is shown next. -/
theorem kept_of_chain : ∀ {ws : List (World village D)} {w₀}, Run (fun _ _ => True) emptyWorld w₀ →
    (w₀ :: ws).IsChain (Run (CommentsAccepted d p)) →
    ((seen w₀ d).select (commentsQuery p) :: queried p (ws.map (seen · d))).IsChain (· ⊆ ·)
  | [], _, _, _ => List.isChain_singleton _
  | w₁ :: ws, w₀, hrun, hruns => by
      obtain ⟨hfirst, hrest⟩ := List.isChain_cons_cons.mp hruns
      refine List.isChain_cons_cons.mpr
        ⟨?_, kept_of_chain (hrun.trans (hfirst.mono fun _ _ _ => trivial)) hrest⟩
      rintro ⟨id, data⟩ hx
      obtain ⟨hget, hselects⟩ := Documents.mem_select.mp hx
      exact Documents.mem_select.mpr ⟨seen_kept hrun hfirst hget, hselects⟩

theorem commented_seen (hrun : Run ok emptyWorld w) : Commented p (seen w d) := by
  intro id data h
  rcases (get_seen hrun).mp h with hstored | ⟨m, hm, hwr⟩
  · exact commented_of_run hrun id data hstored
  · have hup : AsUploaded m.write := asUploaded_of_sent hrun hm
    rw [hwr] at hup
    exact hup

/-- The listener of a comment screen on `d` is shown what `d` sees in the
worlds `w₀ :: ws` of a run, with errors and completions in between, and from
then on no comment sent from `d` is refused. Whatever it hands over is the
comments stored or sent from `d` in the last world it was shown, each once;
and all that was handed over before stands above the rest. -/
theorem comments_listed {w₀ : World village D} {ws : List (World village D)}
    (hbefore : Run ok emptyWorld w₀) (hruns : (w₀ :: ws).IsChain (Run (CommentsAccepted d p)))
    {events : List Event} (hevents : results events = queried p ((w₀ :: ws).map (seen · d))) :
    (∀ x ∈ deliveries {} events, ∃ w ∈ emptyWorld :: w₀ :: ws,
      x.result = (seen w d).select (commentsQuery p) ∧ x.comments.Perm (comments x.result)) ∧
    (deliveries {} events).Pairwise fun x y => x.comments <+: y.comments := by
  refine ⟨fun x hx => ?_, (deliveries_below events {}).2⟩
  have hrun₀ : Run (fun _ _ => True) emptyWorld w₀ := hbefore.mono fun _ _ _ => trivial
  have hresults : ([] : Result) :: results events =
      ((emptyWorld : World village D) :: w₀ :: ws).map fun w =>
        (seen w d).select (commentsQuery p) := by
    rw [hevents, queried, List.map_map]
    rfl
  have hgrows : (([] : Result) :: results events).IsChain (· ⊆ ·) := by
    rw [hevents]
    exact List.isChain_cons_cons.mpr ⟨List.nil_subset _, kept_of_chain hrun₀ hruns⟩
  have hres : ∀ r ∈ ([] : Result) :: results events, Uploaded r ∧ Distinct r := by
    rw [hresults]
    intro r hr
    obtain ⟨w, hw, rfl⟩ := List.mem_map.mp hr
    have hrun : Run (fun _ _ => True) emptyWorld w := by
      rcases List.mem_cons.mp hw with rfl | hw
      · exact .refl
      · exact hrun₀.trans ((run_of_chain hruns hw).mono fun _ _ _ => trivial)
    exact ⟨fun x hx => commented_seen hrun x.1 x.2 (Documents.mem_select.mp hx).1,
      Documents.nodup_select _ _⟩
  obtain ⟨hmem, hlisted⟩ := deliveries_listed events {} (List.Perm.refl _) hres hgrows x hx
  rw [hresults] at hmem
  obtain ⟨w, hw, hresult⟩ := List.mem_map.mp hmem
  exact ⟨w, hw, hresult.symm, hlisted⟩

end

/-- Alice sends another comment on her post: it is not stored yet. -/
def commentingAgain : World village Unit :=
  smooth.perform () (.sendComment 0 "arf") 6 commentedPost

/-- Then it is. -/
def commentedTwice : World village Unit := smooth.drain () 100 commentingAgain

/-- The listener is told of the first comment, of both, and of both again. -/
def toldTwice : List Event :=
  (queried "n3" ([commentedPost, commentingAgain, commentedTwice].map (seen · ()))).flatMap
    fun result => [.snapshot (some result) ⟨0, 0⟩, .completion]

theorem commentsAccepted_smooth {w : World village Unit} {e : Async.Event village Unit}
    (h : smooth.pick () w = some e) : CommentsAccepted () "n3" w e := by
  rintro err m ms rfl -
  cases (smooth_pick h).2.commit () (some err) rfl

theorem comments_listed_twice :
    (∀ x ∈ deliveries {} toldTwice,
      ∃ w ∈ [emptyWorld, commentedPost, commentingAgain, commentedTwice],
        x.result = (seen w ()).select (commentsQuery "n3") ∧
          x.comments.Perm (comments x.result)) ∧
    (deliveries {} toldTwice).Pairwise fun x y => x.comments <+: y.comments := by
  have hagain : Run (CommentsAccepted () "n3") commentedPost commentingAgain :=
    Policy.run_perform (fun _ _ => commentsAccepted_smooth) (fun _ _ _ h _ => by cases h) .refl
  have htwice : Run (CommentsAccepted () "n3") commentingAgain commentedTwice :=
    Policy.run_drain (fun _ _ => commentsAccepted_smooth) .refl
  exact comments_listed commentedPost_reached
    (List.isChain_cons_cons.mpr ⟨hagain, List.isChain_pair.mpr htwice⟩) rfl

example : commentingAgain.server.docs.count (.comments "n3") = 1 ∧
    (deliveries {} toldTwice).map (·.comments.length) = [1, 2, 2] := by decide +kernel

end CommentService

end DogVillage
