import DogVillage.SoundRun

/-!
# The counts of likes stay in bounds

Wherever a count of likes is found, in a document, in a copy of a post, in
a write under way or in what a pending completion will put into a cell, it
is at least 0 and at most the number of calls of `likePost`.
-/

namespace DogVillage

open Async

/-- The post is in the app's memory: in a list, on a detail screen or in a
cell of a feed, on a profile, a search or a comment screen, or in an alert. -/
def App.Holds (app : App) (post : Post) : Prop :=
  (∃ feed ∈ app.feeds, post ∈ feed.posts ∨ feed.post = some post ∨
    ∃ c, feed.cells c = some post) ∨
  (∃ screen ∈ app.profiles, post ∈ screen.posts) ∨
  (∃ screen ∈ app.searches, post ∈ screen.posts) ∨
  (∃ screen ∈ app.comments, screen.post = post) ∨
  ∃ x ∈ app.alerts, x.1 = post

/-- The count of likes a write to `posts` carries. -/
def likesWritten : Write → Option Int
  | .setData ⟨.posts, _⟩ data => (data.lookup "likes").bind Value.asInt
  | .updateData ⟨.posts, _⟩ data => (data.lookup "likes").bind Value.asInt
  | _ => none

/-- The posts a change of the memory leaves there are in bounds. -/
def WithinAfter {D : Type} (log : Log D) (app : App) (c : Block) : Prop :=
  ∀ f n, c = .modify f n → ∀ post, (f app).Holds post → Within log post.likes

structure LikesBounded {D : Type} (w : World village D) : Prop where
  stored : ∀ p (data : Dictionary), w.server.docs.get ⟨.posts, p⟩ = some data →
    Within w.log (data.int "likes")
  held : ∀ d post, (w.devices d).loc.Holds post → Within w.log post.likes
  inFlight : ∀ d, ∀ m ∈ (w.devices d).writes, ∀ n, likesWritten m.write = some n →
    Within w.log n
  /-- The post a pending like or unlike was called with. -/
  captured : ∀ d t post, w.Active d t → t.op = .like post ∨ t.op = .unlike post →
    Within w.log post.likes
  /-- What a queued block or the completion of a write is about to store. -/
  queued : ∀ d, ∀ j ∈ (w.devices d).jobs, WithinAfter w.log (w.devices d).loc j.code
  completed : ∀ d, ∀ m ∈ (w.devices d).writes, ∀ r,
    WithinAfter w.log (w.devices d).loc (m.handler r)

section

variable {D : Type} {log : Log D} {app : App}

theorem AppOk.holds {post : Post} (ha : AppOk log app) (h : app.Holds post) :
    PostOk log post := by
  rcases h with ⟨feed, hf, h | h | ⟨c, h⟩⟩ | ⟨s, hs, h⟩ | ⟨s, hs, h⟩ | ⟨s, hs, rfl⟩ | ⟨x, hx, rfl⟩
  · exact (ha.feeds feed hf).posts post h
  · exact (ha.feeds feed hf).post post h
  · exact (ha.feeds feed hf).cells c post h
  · exact (ha.profiles s hs).posts post h
  · exact (ha.searches s hs).posts post h
  · exact ha.comments s hs
  · exact (ha.alerts x hx).1

theorem int_of_lookup {data : Dictionary} {key : String} {n : Int}
    (h : data.lookup key = some (.int n)) : data.int key = n := by
  simp [Dictionary.int, h, Value.asInt]

theorem WriteOk.likes {strict : Prop} {t : Call} {wr : Write} {n : Int}
    (h : WriteOk strict log t wr) (hn : likesWritten wr = some n) : Within log n := by
  unfold likesWritten at hn
  split at hn
  · obtain ⟨-, k, hk, hw⟩ := h.doc
    rw [hk] at hn
    exact Option.some.inj hn ▸ hw
  · obtain ⟨k, rfl, hw, -⟩ := h
    exact Option.some.inj hn ▸ hw
  · cases hn

/-- Code that is sound changes sound memory into memory within bounds. -/
theorem SoundCode.withinAfter {strict : Prop} {d : D} {t : Call} {c : Block}
    (hc : SoundCode strict d t c log) (ha : AppOk log app) : WithinAfter log app c := by
  rintro f n rfl post hpost
  exact ((hc.1 log List.suffix_rfl app ha).holds hpost).likes

/-- A like or unlike is called with the post in the cell. -/
theorem Action.op_eq_like {a : Action} {post : Post}
    (h : a.op app = .like post ∨ a.op app = .unlike post) :
    ∃ i c, a = .tapLike i c ∧ Action.shownPost app i c = some post := by
  have hs := a.starts app
  rcases h with h | h <;> rw [h] at hs <;> cases hs <;> exact ⟨_, _, rfl, ‹_›⟩

end

variable {D : Type} [DecidableEq D] {w w' : World village D} {e : Event village D}

/-- The posts pending likes and unlikes were called with are in bounds. -/
theorem captured_step (h : Sound False w) (hs : Stepped w e w')
    (hc : ∀ d t post, w.Active d t → t.op = .like post ∨ t.op = .unlike post →
      Within w.log post.likes) :
    ∀ d t post, w'.Active d t → t.op = .like post ∨ t.op = .unlike post →
      Within w'.log post.likes := by
  intro d t post hact hop
  rcases active_of_step hs hact with hact | ⟨a, -, rfl⟩
  · exact (hc d t post hact hop).mono hs.log
  · obtain ⟨i, c, -, hshown⟩ := Action.op_eq_like hop
    exact ((h.code.loc d).shownPost hshown).likes.mono hs.log

/-- From the empty world, whatever happens and whatever fails. -/
theorem likes_bounded (hrun : Run (fun _ _ => True) emptyWorld w) : LikesBounded w := by
  have hsound : ∀ {w}, Run (fun _ _ => True) emptyWorld w → Sound (D := D) False w :=
    fun h => sound_of_run h
  have hw := hsound hrun
  refine ⟨fun p data hget => ?_, fun d post hpost => ?_, fun d m hm n hn => ?_, ?_,
    fun d j hj => ?_, fun d m hm r => ?_⟩
  · obtain ⟨⟨-, n, hn, hwithin⟩, -⟩ := hw.docs _ _ hget
    rw [int_of_lookup hn]
    exact hwithin
  · exact ((hw.code.loc d).holds hpost).likes
  · exact ((hw.code.held d).writes m hm).1.likes hn
  · induction hrun with
    | refl => exact fun d t post h => absurd h not_active_emptyWorld
    | step hrun _ hstep ih =>
        exact captured_step (hsound hrun) (stepped_of_step hstep) (ih (hsound hrun))
  · exact SoundCode.withinAfter ((hw.code.held d).jobs j hj) (hw.code.loc d)
  · exact SoundCode.withinAfter (((hw.code.held d).writes m hm).2 _ List.suffix_rfl r)
      (hw.code.loc d)

/-- Alice has tapped like on her own post, and the writes are under way. -/
def liking : World village Unit := smooth.perform () (.tapLike 0 0) 6 ownPost

theorem likes_bounded_liking : LikesBounded liking :=
  likes_bounded (Policy.run_perform (fun _ _ _ => trivial) trivial
    (ownPost_reached.mono fun _ _ _ => trivial))

example : (liking.devices ()).writes.map (fun m => likesWritten m.write) = [some 1, none] := by
  decide

end DogVillage
