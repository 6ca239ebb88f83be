import DogVillage.Edges

/-!
# The two sides of a like

That `u` likes `p` is kept as `posts/p/post-likes/u` and as
`users/u/user-likes/p`. Like the two sides of a follow they are a `Mirror`:
the handler of the first write issues the second. So they agree wherever
nothing under way may still write one of them, however stale the copies of
the post were from which the taps were made, and whatever becomes of the
count.
-/

namespace DogVillage

open Async

/-- The pairs (account, post), and where the app keeps them. A tap on a post
whose count is not positive unlikes nothing. -/
def likeSides : Mirror (Uid × DocId) where
  original k := ⟨.postLikes k.2, k.1⟩
  copy k := ⟨.userLikes k.1, k.2⟩
  originalKey
    | ⟨.postLikes p, u⟩ => some (u, p)
    | _ => none
  copyKey
    | ⟨.userLikes u, p⟩ => some (u, p)
    | _ => none
  originalKey_eq {r k} := by
    obtain ⟨c, i⟩ := r
    obtain ⟨u, p⟩ := k
    cases c <;> simp [Ref.mk.injEq, and_comm]
  copyKey_eq {r k} := by
    obtain ⟨c, i⟩ := r
    obtain ⟨u, p⟩ := k
    cases c <;> simp [Ref.mk.injEq]
  key
    | ⟨some u, .like post⟩ => some (u, post.postId)
    | ⟨some u, .unlike post⟩ => if post.likes > 0 then some (u, post.postId) else none
    | _ => none

/-! ## The taps -/

/-- No document of a like is in the collection. -/
def OffLikes (c : Collection) : Prop :=
  (∀ p, c ≠ .postLikes p) ∧ ∀ u, c ≠ .userLikes u

theorem likeSides_off (r : Ref Collection) (h : OffLikes r.collection) :
    likeSides.originalKey r = none ∧ likeSides.copyKey r = none := by
  constructor
  · refine Option.eq_none_iff_forall_ne_some.mpr fun k hk => h.1 k.2 ?_
    rw [likeSides.originalKey_eq.mp hk]
    rfl
  · refine Option.eq_none_iff_forall_ne_some.mpr fun k hk => h.2 k.1 ?_
    rw [likeSides.copyKey_eq.mp hk]
    rfl

theorem likeSides_key_unlike {u : Uid} {post : Post} (h : post.likes > 0) :
    likeSides.key ⟨some u, .unlike post⟩ = some (u, post.postId) := if_pos h

variable {u : Uid} {post : Post} {completion : Completion}

theorem likeSides_likeWrites (h : ∀ error, Touches OffLikes (completion error)) :
    likeSides.echo.Follows ⟨some u, .like post⟩ none (likeWrites post u completion) := by
  have hc := fun error =>
    Mirror.follows_of_touches (t := ⟨some u, .like post⟩) (h error) likeSides_off
  refine ⟨⟨rfl, by rintro kv ⟨⟩, fun _ => trivial, rfl, ?_, fun _ => ⟨rfl, rfl, rfl, hc, trivial⟩,
    trivial⟩, trivial⟩
  rintro kv ⟨⟩
  rfl

theorem likeSides_unlikeWrites (hpos : post.likes > 0)
    (h : ∀ error, Touches OffLikes (completion error)) :
    likeSides.echo.Follows ⟨some u, .unlike post⟩ none (unlikeWrites post u completion) := by
  have hc := fun error =>
    Mirror.follows_of_touches (t := ⟨some u, .unlike post⟩) (h error) likeSides_off
  refine ⟨⟨rfl, by rintro kv ⟨⟩, fun _ => trivial, rfl, ?_,
    fun _ => ⟨rfl, rfl, likeSides_key_unlike hpos, hc, trivial⟩, trivial⟩, trivial⟩
  rintro kv ⟨⟩
  exact likeSides_key_unlike hpos

theorem didLike_of_op {i c : Nat} {app : App} {post : Post}
    (h : (Action.tapLike i c).op app = .like post) : post.didLike = false := by
  simp only [Action.op] at h
  split at h
  · split at h
    · cases h
    · next hdid => cases h; simpa using hdid
  · cases h

theorem likeSides_action (a : Action) (app : App) :
    likeSides.echo.Follows ⟨app.currentUser, a.op app⟩ none (a.block.start app) := by
  have hnotif : ∀ u, OffLikes (.userNotifications u) := fun u => ⟨by simp, by simp⟩
  cases a with
  | tapLike i c =>
      have htap := likeTap i c app
      generalize (Action.tapLike i c).op app = op at htap ⊢
      generalize (Action.tapLike i c).block.start app = b at htap ⊢
      cases htap with
      | none => trivial
      | dropped => trivial
      | like _ _ huid _ =>
          rw [huid]
          exact likeSides_likeWrites (touches_onLike hnotif)
      | unlike _ _ huid _ hpos =>
          rw [huid]
          exact likeSides_unlikeWrites hpos touches_onUnlike
  | _ =>
      refine Mirror.follows_of_touches (touches_action _ app) fun r hr => likeSides_off r ?_
      constructor <;> rintro x hx <;> rw [hx] at hr <;> exact hr

/-! ## Runs -/

section

variable {D : Type} [DecidableEq D] {w w' : World village D} {e : Event village D}

/-- Each account is signed in on its own device only, and no write to a record
of a like fails. -/
structure LikesAtHome (home : Uid → D) (w : World village D) (e : Event village D) : Prop where
  signedIn : ∀ d u, (w.devices d).loc.currentUser = some u → home u = d
  accepted : ∀ d error n ns, e = .commit d (some error) → (w.devices d).writes = n :: ns →
    OffLikes n.write.ref.collection

/-- Something may still write one of the two records. -/
def LikeOutstanding (w : World village D) (u : Uid) (p : DocId) : Prop :=
  ∃ d, ¬ (w.devices d).Writes fun wr : Write =>
    wr.ref ≠ ⟨.postLikes p, u⟩ ∧ wr.ref ≠ ⟨.userLikes u, p⟩

omit [DecidableEq D] in
theorem AtHome.exclusive_likes {home : Uid → D} (h : AtHome home w) :
    likeSides.echo.Exclusive w := by
  have actor : ∀ {t : Call} {k : Uid × DocId}, likeSides.key t = some k → t.actor = some k.1 := by
    rintro ⟨_ | u, op⟩ k hk
    · simp [likeSides] at hk
    · cases op with
      | like post =>
          cases hk
          rfl
      | unlike post =>
          obtain ⟨-, hk⟩ := Option.ite_none_right_eq_some.mp hk
          cases hk
          rfl
      | _ => cases hk
  intro d d' t t' k ht ht' hk hk'
  rw [← h d t k.1 ht (actor hk), ← h d' t' k.1 ht' (actor hk')]

theorem likeSides_echoing {home : Uid → D} (hrun : Run (LikesAtHome home) emptyWorld w) :
    AtHome home w ∧ likeSides.echo.Echoing w := by
  refine hrun.inv (fun w => AtHome home w ∧ likeSides.echo.Echoing w) ⟨?_, Mirror.echoing_empty⟩ ?_
  · exact fun d t u ht => absurd ht not_active_emptyWorld
  · rintro w e w' ⟨hhome, hecho⟩ hok hs
    refine ⟨fun d t u ht hu => ?_, Mirror.step hecho hhome.exclusive_likes hs likeSides_action ?_⟩
    · rcases active_of_step hs ht with ht | ⟨a, -, rfl⟩
      · exact hhome d t u ht hu
      · exact hok.signedIn d u hu
    · rintro d (_ | error) n ns he hn hputs
      · rfl
      · have hoff := likeSides_off _ (hok.accepted d error n ns he hn)
        cases hwr : n.write <;> simp_all [Mirror.echo, DocWrite.puts, DocWrite.ref]

/-- Where nothing of a like is outstanding its two records agree. -/
theorem like_sides_agree {home : Uid → D} (hrun : Run (LikesAtHome home) emptyWorld w) {u : Uid}
    {p : DocId} (hup : ¬ LikeOutstanding w u p) :
    w.server.present ⟨.postLikes p, u⟩ ↔ w.server.present ⟨.userLikes u, p⟩ := by
  have hecho := (likeSides_echoing hrun).2
  have hnil : ∀ d, likeSides.echo.dueFor (u, p) (w.devices d) = [] := by
    intro d
    have hd : (w.devices d).Writes fun wr : Write =>
        wr.ref ≠ ⟨.postLikes p, u⟩ ∧ wr.ref ≠ ⟨.userLikes u, p⟩ := by
      by_contra hd
      exact hup ⟨d, hd⟩
    exact Mirror.dueFor_eq_nil (hd.mono fun wr h => h.2)
  have heq := hecho.settled hnil
  simp only [likeSides, Mirror.echo] at heq
  rw [heq]

end

/-- Alice likes her post and taps again before anything of the like has been
carried out: the count is still 0, and nothing is unliked. -/
def tappedTwice : World village Unit :=
  ownPost
    |> smooth.perform () (.tapLike 0 0) 3
    |> smooth.perform () (.tapLike 0 0) 100

theorem tappedTwice_reached : Run (LikesAtHome fun _ => ()) emptyWorld tappedTwice := by
  have hpick : ∀ w e, smooth.pick () w = some e → LikesAtHome (fun _ => ()) w e := by
    refine fun w e h => ⟨fun _ _ _ => rfl, ?_⟩
    rintro d error n ns rfl
    cases smooth_commit h
  have hact : ∀ w a, LikesAtHome (fun _ => ()) w (.act () a) := fun w a =>
    ⟨fun _ _ _ => rfl, fun _ _ _ _ h => by cases h⟩
  unfold tappedTwice ownPost
  iterate 7 refine Policy.run_perform hpick (hact _ _) ?_
  exact .refl

theorem like_sides_agree_tappedTwice :
    tappedTwice.server.present ⟨.postLikes "n3", "n1"⟩ ↔
      tappedTwice.server.present ⟨.userLikes "n1", "n3"⟩ :=
  like_sides_agree tappedTwice_reached fun ⟨(), h⟩ =>
    h (Device.Writes.of_idle (by decide) (by decide))

end DogVillage
