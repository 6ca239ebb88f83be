import DogVillage.Async.Reach
import DogVillage.Async.Repair
import DogVillage.Async.Segment
import DogVillage.Village
import Mathlib.Data.Multiset.Bind

/-!
# The posts of the feed

`PostService.fetchFeedPosts` fetches the posts its account's feed names,
one by one: every answer is appended to one captured array, the array is
sorted, and a block is queued that hands over whatever the array holds by
then. Every list handed over is sorted and holds each post that has
arrived, once; the last one holds all of the feed's posts that exist.
-/

namespace DogVillage.FeedPosts

open Async

/-! ## One call -/

/-- A list given to the completion, with what had arrived by then. -/
structure Delivery where
  list : List Post
  arrived : List Post

/-- The memory of one call: the array its closures share. What arrived and
what was handed over is a record, and has no effect. -/
structure FeedFetch where
  currentUser : Option Uid := none
  posts : List Post := []
  arrived : List Post := []
  handed : List Delivery := []

/-- The signature of app code over another memory. -/
@[reducible] def memorySig (L : Type) : Sig where
  Write := Write
  Err := FIRError
  Ask := Ask
  Ans := Ask.Ans
  Env := Env
  Loc := L
  Note := Option FIRError

abbrev FeedBlock := Code (memorySig FeedFetch)

/-- `PostService.fetchPost`, over any memory -/
def fetchPost {L : Type} (postId : DocId) (completion : Post → Code (memorySig L)) :
    Code (memorySig L) :=
  .global
    (.ask (.getDocument ⟨.posts, postId⟩) (fun snapshot =>
      match snapshot.join with
      | none => .done
      | some data => .env fun e => .main (completion (Post.init postId data e.now)) .done)
      .done) .done

theorem fetchPost_app : fetchPost (L := App) = PostService.fetchPost := rfl

/-- `posts.append(post)`, `posts.sort(by:)` -/
def arrive (post : Post) (fetch : FeedFetch) : FeedFetch :=
  { fetch with
    posts := PostService.sortBySeconds (fetch.posts ++ [post])
    arrived := fetch.arrived ++ [post] }

/-- `completion(posts)` -/
def handOver (fetch : FeedFetch) : FeedFetch :=
  { fetch with handed := fetch.handed ++ [⟨fetch.posts, fetch.arrived⟩] }

/-- The completion `fetchFeedPosts` gives to `fetchPost` -/
def onPost (post : Post) : FeedBlock := .modify (arrive post) (.main (.modify handOver .done) .done)

def fetchFeedPosts : FeedBlock :=
  .get fun fetch =>
    match fetch.currentUser with
    | none => .done
    | some uid =>
        .global
          (.ask (.getDocuments { collection := .userFeed uid }) (fun snapshot =>
            match snapshot with
            | none => .done
            | some documents => .forEach documents fun document => fetchPost document.1 onPost)
            .done) .done

/-- The device that makes the call, over the same server as `village`. -/
def fetching : System (memorySig FeedFetch) where
  Srv := Server
  Tag := Unit
  Action := Unit
  Choice := Server.Choice
  apply := Server.apply
  serve := Server.serve
  supply := Server.supply
  ui _ _ := ((), fetchFeedPosts)

/-- The call has just been made by `uid`. -/
def called (server : Server) (uid : Uid) : World fetching Unit where
  server := server
  devices _ := Device.begin { loc := { currentUser := some uid } } ⟨(), fetchFeedPosts⟩

/-! ## What is read -/

/-- The answer is what the store holds, or the read failed. -/
def FromStore (docs : Documents Collection Value) : (q : Ask) → q.Ans → Prop
  | .getDocument r, snapshot => snapshot = none ∨ snapshot = some (docs.get r)
  | .getDocuments q, snapshot => snapshot = none ∨ snapshot = some (docs.select q)
  | _, _ => True

theorem fromStore_of_serve {srv srv' : Server} {q : Ask} {choice : Server.Choice} {a : q.Ans}
    (h : Server.serve q choice srv = some (a, srv')) : FromStore srv.docs q a := by
  cases q with
  | getDocument r => cases choice <;> cases h <;> simp [FromStore]
  | getDocuments q => cases choice <;> cases h <;> simp [FromStore]
  | _ => trivial

/-- A post of `uid`'s feed that exists, as it is decoded at some time. -/
def IsFeedPost (docs : Documents Collection Value) (uid : Uid) (post : Post) : Prop :=
  (docs.get ⟨.userFeed uid, post.postId⟩).isSome ∧
    ∃ data now, docs.get ⟨.posts, post.postId⟩ = some data ∧ post = Post.init post.postId data now

/-- What can be seen of the call. -/
def Fetches (docs : Documents Collection Value) (uid : Uid) : Obs (memorySig FeedFetch) → Prop
  | .issued _ => False
  | .wrote _ _ => False
  | .answered q a => FromStore docs q a
  | .changed f => f = handOver ∨ ∃ post, IsFeedPost docs uid post ∧ f = arrive post
  | _ => True

def Descending (posts : List Post) : Prop :=
  posts.Pairwise fun p q => q.timestamp.seconds ≤ p.timestamp.seconds

/-- The array is sorted and holds what has arrived, and so did every list
handed over. -/
structure InOrder (docs : Documents Collection Value) (uid : Uid) (fetch : FeedFetch) : Prop where
  user : fetch.currentUser = some uid
  sorted : Descending fetch.posts
  perm : fetch.posts.Perm fetch.arrived
  arrived : ∀ post ∈ fetch.arrived, IsFeedPost docs uid post
  handed : ∀ delivery ∈ fetch.handed, Descending delivery.list ∧
    delivery.list.Perm delivery.arrived ∧ delivery.arrived <+: fetch.arrived

variable {docs : Documents Collection Value} {uid : Uid} {fetch : FeedFetch}

theorem descending_sortBySeconds (posts : List Post) :
    Descending (PostService.sortBySeconds posts) := by
  have htotal : Std.Total fun p q : Post => q.timestamp.seconds ≤ p.timestamp.seconds :=
    ⟨fun p q => Int.le_total q.timestamp.seconds p.timestamp.seconds⟩
  have htrans : IsTrans Post fun p q => q.timestamp.seconds ≤ p.timestamp.seconds :=
    ⟨fun p q r hpq hqr => Int.le_trans hqr hpq⟩
  exact List.pairwise_insertionSort _ _

theorem InOrder.arrive {post : Post} (h : InOrder docs uid fetch) (hpost : IsFeedPost docs uid post) :
    InOrder docs uid (arrive post fetch) where
  user := h.user
  sorted := descending_sortBySeconds _
  perm := (List.perm_insertionSort _ _).trans (h.perm.append_right _)
  arrived p hp := by
    rcases List.mem_append.mp hp with hp | hp
    · exact h.arrived p hp
    · rw [List.mem_singleton.mp hp]; exact hpost
  handed delivery hd := by
    obtain ⟨hsorted, hperm, hfront⟩ := h.handed delivery hd
    exact ⟨hsorted, hperm, hfront.trans (List.prefix_append _ _)⟩

theorem InOrder.handOver (h : InOrder docs uid fetch) : InOrder docs uid (handOver fetch) where
  user := h.user
  sorted := h.sorted
  perm := h.perm
  arrived := h.arrived
  handed delivery hd := by
    rcases List.mem_append.mp hd with hd | hd
    · exact h.handed delivery hd
    · rw [List.mem_singleton.mp hd]
      exact ⟨h.sorted, h.perm, List.prefix_rfl⟩

theorem InOrder.changed {f : FeedFetch → FeedFetch} (hf : Fetches docs uid (.changed f))
    (h : InOrder docs uid fetch) : InOrder docs uid (f fetch) := by
  rcases hf with rfl | ⟨post, hpost, rfl⟩
  · exact h.handOver
  · exact h.arrive hpost

/-! ## The call in bounds -/

theorem under_onPost {L : FeedFetch → Prop} {A : (q : Ask) → q.Ans → Prop} {post : Post}
    (h : IsFeedPost docs uid post) : (onPost post).Under L A (Fetches docs uid) :=
  ⟨Or.inr ⟨post, h, rfl⟩, ⟨Or.inl rfl, trivial⟩, trivial⟩

theorem under_fetchFeedPosts :
    fetchFeedPosts.Under (InOrder docs uid) (FromStore docs) (Fetches docs uid) := by
  intro fetch hfetch
  simp only [hfetch.user]
  refine ⟨⟨fun (a : Option (List (DocId × Dictionary))) ha => ⟨ha, ?_⟩, trivial⟩, trivial⟩
  cases a with
  | none => trivial
  | some documents =>
      refine Code.Under.forEach fun document hdoc =>
        ⟨⟨fun (a : Option (Option Dictionary)) hs => ⟨hs, ?_⟩, trivial⟩, trivial⟩
      obtain rfl : documents = docs.select { collection := .userFeed uid } :=
        Option.some.inj (ha.resolve_left (by simp))
      have hfeed : docs.get ⟨.userFeed uid, document.1⟩ = some document.2 :=
        (Documents.mem_select.mp hdoc).1
      rcases a with _ | _ | data
      · trivial
      · trivial
      · refine fun e => ⟨trivial, under_onPost ⟨?_, data, e.now, ?_, rfl⟩, trivial⟩
        · exact Option.isSome_iff_exists.mpr ⟨_, hfeed⟩
        · exact (Option.some.inj (hs.resolve_left (by simp))).symm

/-! ## What every run keeps -/

/-- The store is as it was, and all that is seen and to be seen is as
bounded. -/
structure Bounded (docs : Documents Collection Value) (uid : Uid) (w : World fetching Unit) :
    Prop where
  store : w.server.docs = docs
  under : w.Under (InOrder docs uid) (FromStore docs) fun _ => Fetches docs uid
  log : ∀ x ∈ w.log, Fetches docs uid x.obs

variable {srv : Server} {w w' : World fetching Unit} {e : Event fetching Unit}

theorem Bounded.no_writes (h : Bounded docs uid w) (d : Unit) : (w.devices d).writes = [] := by
  refine List.eq_nil_iff_forall_not_mem.mpr fun m hm => ?_
  exact ((h.under d).2.writes m hm none).1

/-- The call writes nothing. -/
theorem Bounded.docs_step (h : Bounded docs uid w) (hs : Stepped w e w') :
    w'.server.docs = docs := by
  rw [← h.store]
  cases hs with
  | act => rfl
  | next => rfl
  | finish => rfl
  | @run d s v t c dev r htake hexec =>
      cases c with
      | done => cases hexec
      | env k =>
          obtain ⟨srv', hsupply, rfl⟩ := Option.map_eq_some_iff.mp hexec
          exact docs_supply hsupply
      | _ => cases hexec; rfl
  | @commit d fail m ms hw => rw [h.no_writes d] at hw; cases hw
  | answer hi hv => exact docs_serve hv
  | notify hi hv => exact docs_serve hv

theorem fromStore_of_answers {d : Unit} {t : Unit} {q : Ask} {a : q.Ans} {srv : Server}
    (h : e.Answers w d t q a srv) : FromStore w.server.docs q a := by
  obtain ⟨choice, hserve⟩ := h.serve
  exact fromStore_of_serve hserve

theorem Bounded.step (h : Bounded docs uid w) (hown : e.Own ()) (hs : Stepped w e w') :
    Bounded docs uid w' := by
  obtain ⟨hunder, hlog, -⟩ := h.under.step
    (fun _ f hf fetch hfetch => InOrder.changed hf hfetch) hs
    (fun d a he => absurd he (hown.1 a))
    (fun d t q a srv hans => by have hread := fromStore_of_answers hans; rwa [h.store] at hread)
  refine ⟨h.docs_step hs, hunder, fun x hx => ?_⟩
  rcases hlog x hx with hx | ⟨d, a, he, -⟩ | hp
  · exact h.log x hx
  · exact absurd he (hown.1 a)
  · exact hp

theorem bounded_called : Bounded srv.docs uid (called srv uid) := by
  have hfetch : InOrder srv.docs uid { currentUser := some uid } :=
    ⟨rfl, .nil, .refl _, by simp, by simp⟩
  refine ⟨rfl, fun d => ⟨hfetch, ⟨fun j hj => ?_, by simp [called, Device.begin],
    by simp [called, Device.begin], by simp [called, Device.begin]⟩⟩, by simp [called]⟩
  simp only [called, Device.begin, Device.jobs, Option.toList_some, List.append_nil,
    List.mem_singleton] at hj
  subst hj
  exact under_fetchFeedPosts.start (fun _ hf _ => InOrder.changed hf) hfetch

theorem bounded_of_run (hrun : Run (fun _ e => e.Own ()) (called srv uid) w) :
    Bounded srv.docs uid w :=
  hrun.inv _ bounded_called fun _ _ _ h hown hs => h.step hown hs

/-! ## What arrives -/

/-- The ids of the posts a change lets arrive. -/
def news (f : FeedFetch → FeedFetch) : Multiset DocId :=
  ((f {}).arrived.map (·.postId) : List DocId)

/-- The ids of the posts that are seen to arrive. -/
def arrivals (o : Multiset (Obs (memorySig FeedFetch))) : Multiset DocId := (changes o).bind news

variable {o o' : Multiset (Obs (memorySig FeedFetch))}

@[simp] theorem arrivals_add : arrivals (o + o') = arrivals o + arrivals o' := by
  simp only [arrivals, changes_add, Multiset.add_bind]

/-- The memory records what is seen to arrive. -/
theorem arrived_foldr : ∀ {fs : List (FeedFetch → FeedFetch)},
    (∀ f ∈ fs, Fetches docs uid (.changed f)) →
    (((fs.foldr (fun f l => f l) fetch).arrived.map (·.postId) : List DocId) : Multiset DocId) =
      (fetch.arrived.map (·.postId) : List DocId) + (fs : Multiset (FeedFetch → FeedFetch)).bind news
  | [], _ => by simp
  | f :: fs, hfs => by
      have hrest : ∀ g ∈ fs, Fetches docs uid (.changed g) := fun g hg =>
        hfs g (List.mem_cons_of_mem _ hg)
      have ih := arrived_foldr hrest
      rw [← Multiset.cons_coe, Multiset.cons_bind, List.foldr_cons]
      rcases hfs f List.mem_cons_self with rfl | ⟨post, -, rfl⟩
      · have hnone : news handOver = 0 := rfl
        rw [hnone, zero_add]
        exact ih
      · have hone : news (arrive post) = {post.postId} := rfl
        rw [hone, add_left_comm, ← ih]
        simp only [arrive, List.map_append, List.map_cons, List.map_nil]
        rw [← Multiset.coe_add, add_comm]
        rfl

/-- One post arrives once, if it is there and is read. -/
theorem outcome_fetchPost {I : FeedFetch → Prop} {p : DocId}
    (h : Outcome I (fetchPost p onPost) o) :
    ∃ a : Option (Option Dictionary), .answered (.getDocument ⟨.posts, p⟩) a ∈ o ∧
      arrivals o = if a.join.isSome then {p} else 0 := by
  obtain ⟨_, _, ⟨a, m₁, _, h₁, rfl, rfl⟩, rfl, rfl⟩ := h
  refine ⟨a, by simp, ?_⟩
  have hanswered : arrivals ({.answered (.getDocument ⟨.posts, p⟩) a} :
      Multiset (Obs (memorySig FeedFetch))) = 0 := by simp [arrivals]
  simp only [add_zero, arrivals_add, hanswered, zero_add]
  rcases a with _ | _ | data
  · obtain rfl := h₁; rfl
  · obtain rfl := h₁; rfl
  · obtain ⟨v, _, ⟨_, _, ⟨_, ⟨_, _, ⟨_, rfl, rfl⟩, rfl, rfl⟩, rfl⟩, rfl, rfl⟩, rfl⟩ := h₁
    simp [arrivals, news, arrive, handOver, Post.init]

theorem arrivals_le {I : FeedFetch → Prop} : ∀ {documents : List (DocId × Dictionary)}
    {o : Multiset (Obs (memorySig FeedFetch))},
    Sum (fun document => Outcome I (fetchPost document.1 onPost)) documents o →
    arrivals o ≤ (documents.map Prod.fst : List DocId)
  | [], _, rfl => by simp [arrivals]
  | document :: documents, _, ⟨m₁, m₂, h₁, h₂, rfl⟩ => by
      obtain ⟨a, -, harrivals⟩ := outcome_fetchPost h₁
      have hle : arrivals m₁ ≤ {document.1} := by
        rw [harrivals]
        split
        · exact le_refl _
        · exact Multiset.zero_le _
      rw [arrivals_add, List.map_cons, ← Multiset.cons_coe, ← Multiset.singleton_add]
      exact add_le_add hle (arrivals_le h₂)

theorem arrivals_mono (h : o ≤ o') : arrivals o ≤ arrivals o' := by
  obtain ⟨m, rfl⟩ := Multiset.le_iff_exists_add.mp h
  rw [arrivals_add]
  exact Multiset.le_add_right _ _

/-- The whole call: what the feed names is fetched, post by post. -/
theorem outcome_fetchFeedPosts {I : FeedFetch → Prop}
    (h : Outcome I (fetchFeedPosts.start ({ currentUser := some uid } : FeedFetch)) o) :
    ∃ a : Option (List (DocId × Dictionary)),
      .answered (.getDocuments { collection := .userFeed uid }) a ∈ o ∧
      ∃ m, Sum (fun document => Outcome I (fetchPost document.1 onPost)) (a.getD []) m ∧
        m ≤ o ∧ arrivals o = arrivals m := by
  obtain ⟨_, _, ⟨a, m₁, _, h₁, rfl, rfl⟩, rfl, rfl⟩ := h
  have hanswered : arrivals ({.answered (.getDocuments { collection := .userFeed uid }) a} :
      Multiset (Obs (memorySig FeedFetch))) = 0 := by simp [arrivals]
  refine ⟨a, by simp, m₁, ?_, ?_, ?_⟩
  · cases a with
    | none => exact h₁
    | some documents => exact Outcome.forEach.mp h₁
  · simp only [add_zero]
    exact Multiset.le_add_left _ _
  · simp only [add_zero, arrivals_add, hanswered, zero_add]

/-! ## Each post once, and all of them -/

/-- The answers the store gives. -/
def answerOf (docs : Documents Collection Value) : (q : Ask) → q.Ans
  | .getDocument r => some (docs.get r)
  | .getDocuments q => some (docs.select q)
  | .putData _ _ => none
  | .downloadURL _ => none
  | .createUser _ _ => .error .notFound
  | .signIn _ _ => .error .notFound
  | .sendPasswordReset _ => none
  | .deleteAccount _ => none

theorem fromStore_of_given {x : Obs (memorySig FeedFetch)} {q : Ask} {a : q.Ans}
    (h : Given (answerOf docs) x) (hx : x = .answered q a) : FromStore docs q a := by
  subst hx
  obtain rfl := h
  cases q with
  | getDocument r => exact Or.inr rfl
  | getDocuments q => exact Or.inr rfl
  | _ => trivial

theorem mem_seen {x : Obs (memorySig FeedFetch)} (h : x ∈ w.seen ()) :
    ∃ y ∈ w.log, y.obs = x := by
  simp only [World.seen, Multiset.mem_coe, List.mem_map, List.mem_filter] at h
  obtain ⟨y, ⟨hy, -⟩, rfl⟩ := h
  exact ⟨y, hy, rfl⟩

/-- What a run has shown goes on to an outcome of the call, and its memory
records what has arrived. -/
theorem outcome_called (hrun : Run (fun _ e => e.Own ()) (called srv uid) w) :
    ∃ m, Outcome (fun _ => True) (fetchFeedPosts.start ({ currentUser := some uid } : FeedFetch))
        (w.seen () + m) ∧
      (∀ x ∈ m, Given (answerOf srv.docs) x) ∧ ((w.devices ()).idle = true → m = 0) ∧
      ((w.devices ()).loc.arrived.map (·.postId) : List DocId) = arrivals (w.seen ()) := by
  obtain ⟨o, ho, hback⟩ := Future.run (I := fun _ => True) (fun _ _ h => h) hrun trivial
  have hseen : w.seen () = o := by rw [ho]; exact zero_add o
  have henv : Nonempty Env := ⟨⟨"", ⟨0, 0⟩⟩⟩
  obtain ⟨m, hm, hgiven⟩ := exists_future (I := fun _ => True)
    ⟨(w.devices ()).loc, trivial⟩ (answerOf srv.docs) henv (w.devices ())
  have hfuture := (hback fun _ _ _ _ => trivial).2 m (fun _ _ _ _ => trivial) hm
  obtain ⟨m₁, m₂, h₁, h₂, heq⟩ := (Future.begin rfl).mp hfuture
  obtain rfl : m₂ = 0 := Future.eq_zero rfl h₂
  refine ⟨m, ?_, hgiven, fun hidle => Future.eq_zero hidle hm, ?_⟩
  · rw [hseen, heq, add_zero]
    exact h₁
  · obtain ⟨o', fs, ho', hfs, hloc⟩ := loc_of_run hrun ()
    obtain rfl : o' = w.seen () := by rw [ho']; exact (zero_add o').symm
    have hall : ∀ f ∈ fs, Fetches srv.docs uid (.changed f) := fun f hf => by
      have hmem : .changed f ∈ w.seen () := mem_changes.mp (hfs ▸ Multiset.mem_coe.mpr hf)
      obtain ⟨y, hy, hobs⟩ := mem_seen hmem
      exact hobs ▸ (bounded_of_run hrun).log y hy
    rw [hloc, arrived_foldr hall, hfs]
    exact zero_add _

/-- Every answer in it is the store's, or a failure. -/
theorem fromStore_of_outcome {m : Multiset (Obs (memorySig FeedFetch))} {q : Ask} {a : q.Ans}
    (hrun : Run (fun _ e => e.Own ()) (called srv uid) w)
    (hm : ∀ x ∈ m, Given (answerOf srv.docs) x) (h : .answered q a ∈ w.seen () + m) :
    FromStore srv.docs q a := by
  rcases Multiset.mem_add.mp h with h | h
  · obtain ⟨y, hy, hobs⟩ := mem_seen h
    have hf := (bounded_of_run hrun).log y hy
    rw [hobs] at hf
    exact hf
  · exact fromStore_of_given (hm _ h) rfl

/-- No post arrives twice. -/
theorem nodup_arrived (hrun : Run (fun _ e => e.Own ()) (called srv uid) w) :
    ((w.devices ()).loc.arrived.map (·.postId)).Nodup := by
  obtain ⟨m, hout, hgiven, -, harrived⟩ := outcome_called hrun
  obtain ⟨a, ha, m', hsum, -, heq⟩ := outcome_fetchFeedPosts hout
  have hnodup : ((a.getD []).map Prod.fst).Nodup := by
    rcases fromStore_of_outcome hrun hgiven ha with rfl | rfl
    · exact List.nodup_nil
    · exact srv.docs.nodup_select _
  have hle : arrivals (w.seen ()) ≤ ((a.getD []).map Prod.fst : List DocId) :=
    (arrivals_mono (Multiset.le_add_right _ m)).trans (heq ▸ arrivals_le hsum)
  rw [← Multiset.coe_nodup, harrived]
  exact Multiset.nodup_of_le hle (Multiset.coe_nodup.mpr hnodup)

/-- The read came back without a snapshot. -/
def failed : Obs (memorySig FeedFetch) → Bool
  | .answered (.getDocument _) none => true
  | .answered (.getDocuments _) none => true
  | _ => false

/-- When the call is over, and no read has failed, every post of the feed
that exists has arrived. -/
theorem mem_arrived (hrun : Run (fun _ e => e.Own ()) (called srv uid) w)
    (hidle : (w.devices ()).idle = true) (hread : ∀ x ∈ w.log, failed x.obs = false) {p : DocId}
    (hfeed : (srv.docs.get ⟨.userFeed uid, p⟩).isSome)
    (hpost : (srv.docs.get ⟨.posts, p⟩).isSome) :
    ∃ post ∈ (w.devices ()).loc.arrived, post.postId = p := by
  obtain ⟨m, hout, hgiven, hzero, harrived⟩ := outcome_called hrun
  obtain rfl := hzero hidle
  have hok : ∀ q a, .answered q a ∈ w.seen () + 0 → failed (.answered q a) = false := fun q a h => by
    rw [add_zero] at h
    obtain ⟨y, hy, hobs⟩ := mem_seen h
    exact hobs ▸ hread y hy
  obtain ⟨a, ha, m', hsum, hle, heq⟩ := outcome_fetchFeedPosts hout
  obtain rfl : a = some (srv.docs.select { collection := .userFeed uid }) := by
    refine (fromStore_of_outcome hrun hgiven ha).resolve_left fun h => ?_
    subst h
    cases hok _ _ ha
  obtain ⟨data, hdata⟩ := Option.isSome_iff_exists.mp hfeed
  have hmem : (p, data) ∈ srv.docs.select { collection := .userFeed uid } :=
    Documents.mem_select.mpr ⟨hdata, rfl⟩
  obtain ⟨mₚ, hₚ, hleₚ⟩ := hsum.le_of_mem hmem
  obtain ⟨snapshot, hsnapshot, harrives⟩ := outcome_fetchPost hₚ
  have hin := Multiset.mem_of_le (hleₚ.trans hle) hsnapshot
  obtain rfl : snapshot = some (srv.docs.get ⟨.posts, p⟩) := by
    refine (fromStore_of_outcome hrun hgiven hin).resolve_left fun h => ?_
    subst h
    cases hok _ _ hin
  have hone : p ∈ arrivals mₚ := by
    rw [harrives, if_pos (by simpa using hpost)]
    exact Multiset.mem_singleton_self p
  have hp : p ∈ arrivals (w.seen ()) := by
    rw [← add_zero (w.seen ()), heq]
    exact Multiset.mem_of_le (arrivals_mono hleₚ) hone
  rw [← harrived, Multiset.mem_coe, List.mem_map] at hp
  exact hp

/-! ## The last list -/

def FeedFetch.lastHanded (fetch : FeedFetch) : List Post :=
  (fetch.handed.getLast?.map (·.arrived)).getD []

@[simp] theorem lastHanded_handOver : (handOver fetch).lastHanded = fetch.arrived := by
  simp [FeedFetch.lastHanded, handOver]

/-- Wrong is an arrival the last list handed over lacks. -/
def delivering : Repair (memorySig FeedFetch) Unit where
  loc _ := True
  ans _ _ := True
  cures _ f := f = handOver
  sane _ := True
  given _ _ := True
  wrong _ fetch := fetch.lastHanded ≠ fetch.arrived
  cure _ f fetch hf _ := by
    subst hf
    exact fun h => h lastHanded_handOver
  loc_of_sane _ _ := trivial
  ans_of_given _ _ _ := trivial

/-- What arrives is handed over by the block queued then. -/
theorem safe_onPost (post : Post) : delivering.Safe (onPost post) := by
  refine fun fetch _ => ⟨⟨trivial, fun _ _ => Or.inr ?_⟩, fun fetch _ => ?_, trivial⟩
  · exact Or.inl (Or.inl rfl)
  · refine ⟨⟨trivial, fun _ h => ?_⟩, trivial⟩
    exact absurd lastHanded_handOver h

theorem safe_fetchPost (p : DocId) : delivering.Safe (fetchPost p onPost) := by
  refine fun _ _ => ⟨⟨trivial, fun _ _ => ⟨fun a _ fetch _ => ?_, trivial⟩⟩, trivial⟩
  rcases a with _ | _ | data
  · trivial
  · trivial
  · exact fun v => ⟨safe_onPost _, trivial⟩

theorem safe_fetchFeedPosts : delivering.Safe fetchFeedPosts := by
  intro fetch _
  show delivering.Careful (match fetch.currentUser with
    | none => .done
    | some uid => _) fetch
  cases fetch.currentUser with
  | none => trivial
  | some uid =>
      refine ⟨⟨trivial, fun _ _ => ⟨fun a _ => ?_, trivial⟩⟩, trivial⟩
      cases a with
      | none => exact fun _ _ => trivial
      | some documents => exact Repair.Careful.forEach fun document _ => safe_fetchPost document.1

theorem tended_of_run (hrun : Run (fun _ e => e.Own ()) (called srv uid) w) :
    delivering.Tended (w.devices ()) := by
  refine hrun.inv (fun w => delivering.Tended (w.devices ())) ?_ fun w e w' h hown hs => ?_
  · have hcareful := safe_fetchFeedPosts { currentUser := some uid } trivial
    refine ⟨⟨by simp [called, Device.begin], by simp [called, Device.begin],
      by simp [called, Device.begin], by simp [called, Device.begin]⟩, trivial, ?_, ?_⟩
    · rintro j ⟨rfl⟩
      exact ⟨Code.started_start, hcareful.start⟩
    · exact fun _ h => absurd rfl h
  · exact h.step hs (fun a he => absurd he (hown.1 a)) (fun _ _ _ _ _ => trivial) hown.2

/-- Every list `fetchFeedPosts` hands over is sorted, newest first, and
holds exactly the posts whose answers have arrived by then, each once. When
the call is over, and no read has failed, the last list holds exactly the
posts of the feed that exist, if there are any. -/
theorem feedPosts_of_run (hrun : Run (fun _ e => e.Own ()) (called srv uid) w) :
    (∀ delivery ∈ (w.devices ()).loc.handed, Descending delivery.list ∧
      delivery.list.Perm delivery.arrived ∧ (delivery.list.map (·.postId)).Nodup ∧
      delivery.arrived <+: (w.devices ()).loc.arrived) ∧
    ((w.devices ()).idle = true → (∀ x ∈ w.log, failed x.obs = false) →
      (∃ p, (srv.docs.get ⟨.userFeed uid, p⟩).isSome ∧ (srv.docs.get ⟨.posts, p⟩).isSome) →
      ∃ last, (w.devices ()).loc.handed.getLast? = some last ∧
        (∀ post ∈ last.list, IsFeedPost srv.docs uid post) ∧
        ∀ p, (srv.docs.get ⟨.userFeed uid, p⟩).isSome → (srv.docs.get ⟨.posts, p⟩).isSome →
          ∃ post ∈ last.list, post.postId = p) := by
  have horder := ((bounded_of_run hrun).under ()).1
  refine ⟨fun delivery hd => ?_, fun hidle hread ⟨p, hfeed, hpost⟩ => ?_⟩
  · obtain ⟨hsorted, hperm, hfront⟩ := horder.handed delivery hd
    refine ⟨hsorted, hperm, ?_, hfront⟩
    have hnodup := (nodup_arrived hrun).sublist (hfront.sublist.map (·.postId))
    exact (hperm.map (·.postId)).nodup_iff.mpr hnodup
  · have hlast : (w.devices ()).loc.lastHanded = (w.devices ()).loc.arrived :=
      not_not.mp ((tended_of_run hrun).not_wrong (x := ()) hidle)
    have hall := fun p hfeed hpost => mem_arrived (p := p) hrun hidle hread hfeed hpost
    cases hhanded : (w.devices ()).loc.handed.getLast? with
    | none =>
        obtain ⟨post, hmem, -⟩ := hall p hfeed hpost
        rw [← hlast, FeedFetch.lastHanded, hhanded] at hmem
        cases hmem
    | some last =>
        have harrived : last.arrived = (w.devices ()).loc.arrived := by
          rw [← hlast, FeedFetch.lastHanded, hhanded]
          rfl
        obtain ⟨-, hperm, -⟩ := horder.handed last (List.mem_of_getLast? hhanded)
        refine ⟨last, rfl, fun post hmem => ?_, fun p hfeed hpost => ?_⟩
        · exact horder.arrived post (harrived ▸ hperm.mem_iff.mp hmem)
        · obtain ⟨post, hmem, hid⟩ := hall p hfeed hpost
          exact ⟨post, hperm.mem_iff.mpr (harrived ▸ hmem), hid⟩

/-- Surroundings in which every call succeeds. -/
def prompt : Policy fetching where
  env srv := ⟨Server.nextName srv, ⟨0, 0⟩⟩
  choice _ _ := .ok

/-- Alice's feed names two posts that exist and one that was deleted. -/
def aliceStore : Server where
  docs := Documents.empty
    |>.set ⟨.posts, "bath"⟩ (PostService.postData "bath" "url" "alice" (User.init []) ⟨9, 0⟩)
    |>.set ⟨.posts, "walk"⟩ (PostService.postData "walk" "url" "alice" (User.init []) ⟨5, 0⟩)
    |>.set ⟨.userFeed "alice", "bath"⟩ []
    |>.set ⟨.userFeed "alice", "gone"⟩ []
    |>.set ⟨.userFeed "alice", "walk"⟩ []

/-- All three have been asked for. -/
def aliceAsking : World fetching Unit := prompt.drain () 13 (called aliceStore "alice")

/-- The one asked for last, an older post, is answered first. -/
def aliceAnswered : World fetching Unit :=
  (step aliceAsking (.answer () 2 .ok)).getD aliceAsking

def aliceFetched : World fetching Unit := prompt.drain () 50 aliceAnswered

theorem aliceFetched_reached :
    Run (fun _ e => e.Own ()) (called aliceStore "alice") aliceFetched := by
  have hpick : ∀ w e, prompt.pick () w = some e → Event.Own () e :=
    fun _ _ h => (Policy.pick_own h).2
  have hasking : Run (fun _ e => e.Own ()) (called aliceStore "alice") aliceAsking :=
    Policy.run_drain hpick .refl
  have hanswer : step aliceAsking (.answer () 2 .ok) = some aliceAnswered := rfl
  exact Policy.run_drain hpick (hasking.step (Event.own_of_isOwn rfl) hanswer)

theorem feedPosts_aliceFetched :
    (aliceFetched.devices ()).loc.arrived.map (·.postId) = ["walk", "bath"] ∧
      ∃ last, (aliceFetched.devices ()).loc.handed.getLast? = some last ∧ Descending last.list ∧
        (∃ post ∈ last.list, post.postId = "walk") ∧ ∃ post ∈ last.list, post.postId = "bath" := by
  have hread : ∀ x ∈ aliceFetched.log, failed x.obs = false := fun x hx => by
    have hall : aliceFetched.log.all (fun x => !failed x.obs) = true := rfl
    simpa using List.all_eq_true.mp hall x hx
  obtain ⟨hlists, hlast⟩ := feedPosts_of_run aliceFetched_reached
  obtain ⟨last, hhanded, -, hposts⟩ := hlast rfl hread ⟨"walk", rfl, rfl⟩
  exact ⟨rfl, last, hhanded, (hlists last (List.mem_of_getLast? hhanded)).1,
    hposts "walk" rfl rfl, hposts "bath" rfl rfl⟩

end DogVillage.FeedPosts
