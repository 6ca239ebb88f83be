import DogVillage.Deliveries

/-!
# Two lists of posts

`fetchPosts` has the server sort by the full timestamp; `fetchPosts(forUser:)`
takes the posts of one owner by id and sorts them itself, by whole seconds.
The two agree, up to posts with equal timestamps, as long as of the posts
one owner made in the same second the newer has the smaller id.
-/

namespace DogVillage

open Async

/-! ## Uploaded posts -/

/-- Every post stored has an owner and a time, as `uploadPost` writes them. -/
def Stamped (docs : Documents Collection Value) : Prop :=
  ∀ id data, docs.get ⟨.posts, id⟩ = some data →
    ∃ uid time, data.lookup "ownerUid" = some (.string uid) ∧
      data.lookup "timestamp" = some (.timestamp time)

/-- The stored post `p`. -/
def IsStored (docs : Documents Collection Value) (p : Post) : Prop :=
  ∃ data, docs.get ⟨.posts, p.postId⟩ = some data ∧ p = Post.init p.postId data ⟨0, 0⟩

/-- One list is the other up to the order of posts with equal timestamps. -/
structure SameOrder (l l' : List Post) : Prop where
  perm : l.Perm l'
  times : l.map (·.timestamp) = l'.map (·.timestamp)

/-- Of two posts of `uid` made in the same second, the newer has the
smaller id. -/
def NewerFirst (docs : Documents Collection Value) (uid : Uid) : Prop :=
  ∀ p q, IsStored docs p → IsStored docs q → p.ownerUid = uid → q.ownerUid = uid →
    p.timestamp.seconds = q.timestamp.seconds →
    q.timestamp.nanoseconds < p.timestamp.nanoseconds → p.postId < q.postId

section

variable {docs : Documents Collection Value} {uid : Uid} {p : Post}

/-- The time of decoding makes no difference. -/
theorem init_congr {id : DocId} {data : Dictionary} (h : Stamped docs)
    (hd : docs.get ⟨.posts, id⟩ = some data) (now : Timestamp) :
    Post.init id data now = Post.init id data ⟨0, 0⟩ := by
  obtain ⟨_, time, -, ht⟩ := h id data hd
  simp only [Post.init, Dictionary.timestamp, ht, Option.bind_some, Value.asTimestamp,
    Option.getD_some]

theorem mem_posts (h : Stamped docs) {q : Query Collection Value} (hq : q.collection = .posts)
    {now : Timestamp} : p ∈ PostService.posts (docs.select q) now ↔
      ∃ data, docs.get ⟨.posts, p.postId⟩ = some data ∧ q.selects data ∧
        p = Post.init p.postId data ⟨0, 0⟩ := by
  simp only [PostService.posts, List.mem_map]
  constructor
  · rintro ⟨⟨id, data⟩, hx, rfl⟩
    obtain ⟨hd, hsel⟩ := Documents.mem_select.mp hx
    rw [hq] at hd
    exact ⟨data, hd, hsel, init_congr h hd now⟩
  · rintro ⟨data, hd, hsel, hp⟩
    refine ⟨(p.postId, data), Documents.mem_select.mpr ⟨by rw [hq]; exact hd, hsel⟩, ?_⟩
    rw [init_congr h hd now]
    exact hp.symm

/-- `fetchPosts` finds every post. -/
theorem mem_posts_byTime (h : Stamped docs) {now : Timestamp} :
    p ∈ PostService.posts (docs.select postsByTime) now ↔ IsStored docs p := by
  rw [mem_posts h rfl]
  refine exists_congr fun data => and_congr_right fun hd => and_iff_right ?_
  obtain ⟨_, _, -, ht⟩ := h _ data hd
  simp only [Query.selects, postsByTime, ht, Option.isSome_some, Bool.and_self]

/-- `fetchPosts(forUser:)` finds every post of the user. -/
theorem mem_posts_of (h : Stamped docs) {now : Timestamp} :
    p ∈ PostService.posts (docs.select (postsOf uid)) now ↔ IsStored docs p ∧ p.ownerUid = uid := by
  rw [mem_posts h rfl, IsStored, ← exists_and_right]
  refine exists_congr fun data => ?_
  rw [and_assoc]
  refine and_congr_right fun hd => ?_
  rw [and_comm]
  refine and_congr_right fun hp => ?_
  obtain ⟨owner, _, ho, -⟩ := h _ data hd
  have hown : p.ownerUid = owner := by
    rw [hp]
    simp only [Post.init, Dictionary.string, ho, Option.bind_some, Value.asString,
      Option.getD_some]
  simp [Query.selects, postsOf, ho, hown]

theorem nodup_posts (docs : Documents Collection Value) (q : Query Collection Value)
    (now : Timestamp) : ((PostService.posts (docs.select q) now).map (·.postId)).Nodup := by
  rw [PostService.posts, List.map_map]
  exact docs.nodup_select q

/-- The server's list is sorted by time, newest first. -/
theorem pairwise_posts_byTime (h : Stamped docs) (now : Timestamp) :
    (PostService.posts (docs.select postsByTime) now).Pairwise
      fun p q => q.timestamp.le p.timestamp = true := by
  have htime : ∀ x ∈ docs.select postsByTime, ∃ t, x.2.lookup "timestamp" = some (.timestamp t) ∧
      (Post.init x.1 x.2 now).timestamp = t := fun x hx => by
    obtain ⟨_, t, -, ht⟩ := h x.1 x.2 (Documents.mem_select.mp hx).1
    refine ⟨t, ht, ?_⟩
    simp only [Post.init, Dictionary.timestamp, ht, Option.bind_some, Value.asTimestamp,
      Option.getD_some]
  refine List.pairwise_map.mpr ((docs.pairwise_select_field (k := "timestamp") rfl).imp_of_mem ?_)
  intro x y hx hy hle
  obtain ⟨t, ht, hpt⟩ := htime x hx
  obtain ⟨u, hu, hqu⟩ := htime y hy
  rw [hpt, hqu]
  exact hle _ _ ht hu

/-- The client's is sorted by seconds, and within a second by id. -/
theorem pairwise_sortBySeconds (q : Query Collection Value) (hq : q.orderBy = none)
    (now : Timestamp) :
    (PostService.sortBySeconds (PostService.posts (docs.select q) now)).Pairwise fun p q =>
      q.timestamp.seconds ≤ p.timestamp.seconds ∧
        (p.timestamp.seconds ≤ q.timestamp.seconds → p.postId < q.postId) := by
  have : Std.Total fun p q : Post => q.timestamp.seconds ≤ p.timestamp.seconds :=
    ⟨fun _ _ => Int.le_total _ _⟩
  have : IsTrans Post fun p q => q.timestamp.seconds ≤ p.timestamp.seconds :=
    ⟨fun _ _ _ h h' => h'.trans h⟩
  exact pairwise_insertionSort_of_pairwise
    (List.pairwise_map.mpr (docs.pairwise_select_id hq))

/-- The two lists hold the same posts. -/
theorem perm_lists (h : Stamped docs) (now now' : Timestamp) :
    (PostService.sortBySeconds (PostService.posts (docs.select (postsOf uid)) now)).Perm
      ((PostService.posts (docs.select postsByTime) now').filter (·.ownerUid == uid)) := by
  have hnodup : ∀ q now, (PostService.posts (docs.select q) now).Nodup := fun q now =>
    (nodup_posts docs q now).of_map
  refine (List.perm_insertionSort _ _).trans ?_
  refine (List.perm_ext_iff_of_nodup (hnodup _ _) ((hnodup _ _).filter _)).mpr fun p => ?_
  rw [mem_posts_of h, List.mem_filter, mem_posts_byTime h, beq_iff_eq]

/-- So they agree as far as the client's is sorted by time. -/
theorem sameOrder_iff_pairwise (h : Stamped docs) (now now' : Timestamp) :
    SameOrder (PostService.sortBySeconds (PostService.posts (docs.select (postsOf uid)) now))
        ((PostService.posts (docs.select postsByTime) now').filter (·.ownerUid == uid)) ↔
      (PostService.sortBySeconds (PostService.posts (docs.select (postsOf uid)) now)).Pairwise
        fun p q => q.timestamp.le p.timestamp = true := by
  have hsorted := ((pairwise_posts_byTime h now').filter (·.ownerUid == uid))
  have hperm := @perm_lists _ uid h now now'
  rw [← List.pairwise_map (f := Post.timestamp) (R := fun t u => u.le t = true)] at hsorted ⊢
  constructor
  · intro hsame
    rw [hsame.times]
    exact hsorted
  · intro hpair
    have : Std.Antisymm fun t u : Timestamp => u.le t = true :=
      ⟨fun _ _ h h' => Timestamp.le_antisymm h' h⟩
    exact ⟨hperm, (hperm.map _).eq_of_pairwise' hpair hsorted⟩

end

/-! ## When they agree -/

/-- What `fetchPosts(forUser:)` delivers is what `fetchPosts` delivers,
restricted to the user's posts, if and only if posts of one second come
newest first by id. -/
theorem fetchPostsForUser_sameOrder_iff {srv : Server} {uid : Uid} {l l' : List Post}
    (hstamped : Stamped srv.docs)
    (huser : Delivers srv (PostService.fetchPostsForUser uid) l)
    (hall : Delivers srv PostService.fetchPosts l') :
    SameOrder l (l'.filter (·.ownerUid == uid)) ↔ NewerFirst srv.docs uid := by
  obtain ⟨now, rfl⟩ := delivers_fetchPostsForUser.mp huser
  obtain ⟨now', rfl⟩ := delivers_fetchPosts.mp hall
  rw [sameOrder_iff_pairwise hstamped]
  have hsort := @pairwise_sortBySeconds srv.docs (postsOf uid) rfl now
  have hmem : ∀ p, p ∈ PostService.sortBySeconds
      (PostService.posts (srv.docs.select (postsOf uid)) now) ↔
        IsStored srv.docs p ∧ p.ownerUid = uid := fun p => by
    rw [PostService.sortBySeconds, List.mem_insertionSort, mem_posts_of hstamped]
  constructor
  · intro htime p q hp hq hpu hqu hsec hnano
    -- one of the two stands first, and it cannot be `q`
    have hne : p ≠ q := by
      rintro rfl
      exact lt_irrefl _ hnano
    rcases or_of_pairwise (htime.and hsort) ((hmem p).mpr ⟨hp, hpu⟩) ((hmem q).mpr ⟨hq, hqu⟩) hne
      with ⟨-, -, hid⟩ | ⟨hle, -⟩
    · exact hid hsec.le
    · simp only [Timestamp.le, Bool.or_eq_true, Bool.and_eq_true, decide_eq_true_eq,
        beq_iff_eq] at hle
      omega
  · intro hnewer
    refine hsort.imp_of_mem fun {p q} hp hq hpq => ?_
    obtain ⟨hsec, hid⟩ := hpq
    obtain ⟨hp, hpu⟩ := (hmem p).mp hp
    obtain ⟨hq, hqu⟩ := (hmem q).mp hq
    simp only [Timestamp.le, Bool.or_eq_true, Bool.and_eq_true, decide_eq_true_eq, beq_iff_eq]
    by_cases hsecs : q.timestamp.seconds < p.timestamp.seconds
    · exact Or.inl hsecs
    · have heq : q.timestamp.seconds = p.timestamp.seconds := by omega
      refine Or.inr ⟨heq, not_lt.mp fun hnano => ?_⟩
      exact String.lt_asymm (hid heq.ge) (hnewer q p hq hp hqu hpu heq hnano)

/-- A server with two posts of alice's, `b` made a microsecond after `a`. -/
def twoPosts (a b : DocId) : Server where
  docs := (Documents.empty.set ⟨.posts, a⟩
    (PostService.postData "walk" "url" "alice" (User.init []) ⟨7, 1000⟩)).set ⟨.posts, b⟩
      (PostService.postData "nap" "url" "alice" (User.init []) ⟨7, 2000⟩)

theorem stamped_twoPosts (a b : DocId) : Stamped (twoPosts a b).docs := by
  intro id data h
  rw [twoPosts, Documents.get_set, Documents.get_set] at h
  split at h
  · cases h; exact ⟨_, _, rfl, rfl⟩
  · split at h
    · cases h; exact ⟨_, _, rfl, rfl⟩
    · cases h

theorem isStored_twoPosts {a b : DocId} {p : Post} (h : IsStored (twoPosts a b).docs p) :
    p.postId = b ∧ p.timestamp = ⟨7, 2000⟩ ∨ p.postId = a ∧ p.timestamp = ⟨7, 1000⟩ := by
  obtain ⟨data, hget, hp⟩ := h
  have htime : p.timestamp = (Post.init p.postId data ⟨0, 0⟩).timestamp :=
    congrArg Post.timestamp hp
  rw [twoPosts, Documents.get_set, Documents.get_set] at hget
  split at hget
  · next hid =>
      cases hget
      exact Or.inl ⟨congrArg Ref.id hid, htime⟩
  · split at hget
    · next hid =>
        cases hget
        exact Or.inr ⟨congrArg Ref.id hid, htime⟩
    · cases hget

theorem newerFirst_twoPosts {a b : DocId} (h : b < a) : NewerFirst (twoPosts a b).docs "alice" := by
  intro p q hp hq _ _ _ hnano
  rcases isStored_twoPosts hp with ⟨hpid, hpt⟩ | ⟨hpid, hpt⟩ <;>
    rcases isStored_twoPosts hq with ⟨hqid, hqt⟩ | ⟨hqid, hqt⟩ <;>
      simp only [hpt, hqt] at hnano
  · omega
  · rw [hpid, hqid]
    exact h
  · omega
  · omega

/-- With the ids the other way round from the times the lists agree. -/
theorem fetchPostsForUser_sameOrder_twoPosts :
    SameOrder (PostService.sortBySeconds (PostService.posts
        ((twoPosts "y" "x").docs.select (postsOf "alice")) ⟨8, 0⟩))
      ((PostService.posts ((twoPosts "y" "x").docs.select postsByTime) ⟨8, 0⟩).filter
        (·.ownerUid == "alice")) :=
  (fetchPostsForUser_sameOrder_iff (stamped_twoPosts "y" "x")
    (delivers_fetchPostsForUser.mpr ⟨_, rfl⟩) (delivers_fetchPosts.mpr ⟨_, rfl⟩)).mpr
      (newerFirst_twoPosts (by decide))

/-- Ids in the order of the times: on the profile the older post stands first. -/
theorem older_post_first : ∃ srv uid l l', Stamped srv.docs ∧
    Delivers srv (PostService.fetchPostsForUser uid) l ∧ Delivers srv PostService.fetchPosts l' ∧
      l.map (·.caption) = ["walk", "nap"] ∧ l'.map (·.caption) = ["nap", "walk"] ∧
      ¬SameOrder l (l'.filter (·.ownerUid == uid)) := by
  refine ⟨twoPosts "x" "y", "alice", _, _, stamped_twoPosts "x" "y",
    delivers_fetchPostsForUser.mpr ⟨⟨8, 0⟩, rfl⟩, delivers_fetchPosts.mpr ⟨⟨8, 0⟩, rfl⟩,
    by decide, by decide, fun h => ?_⟩
  exact absurd h.times (by decide)

end DogVillage
