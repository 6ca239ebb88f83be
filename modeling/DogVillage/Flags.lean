import DogVillage.Notices
import DogVillage.Async.Repair

/-!
# The flags on the lists

A list of posts shows of each whether it is liked, a list of notifications
whether the sender of a follow is followed. A new list comes without its
flags: each is set by a check of its own, which looks for the item in
whatever list is there when it is answered. As long as the account leaves
its likes (or whom it follows) alone, a flag that is wrong has a check
coming, and with nothing outstanding every flag is right.
-/

namespace DogVillage

open Async

inductive Flag
  | didLike
  | userIsFollowed
deriving DecidableEq, Repr

/-- An item of a list: its id, and the document its flag is about, of the
post itself or of the notification's sender. -/
structure Item where
  id : DocId
  key : String
deriving DecidableEq, Repr

namespace Flag

/-- The documents of the account `u` the flag tells of. -/
def collection (u : Uid) : Flag → Collection
  | didLike => .userLikes u
  | userIsFollowed => .userFollowing u

/-- The item is in the list of screen `i`, and its flag says `b`. -/
def Shows (app : App) (i : Nat) (x : Item) (b : Bool) : Flag → Prop
  | didLike => ∃ feed, app.feeds[i]? = some feed ∧ feed.post = none ∧
      ∃ post ∈ feed.posts, post.postId = x.id ∧ post.postId = x.key ∧ post.didLike = b
  | userIsFollowed => ∃ screen, app.notifications[i]? = some screen ∧
      ∃ n ∈ screen.notifications, n.type = .follow ∧ n.id = x.id ∧ n.uid = x.key ∧
        n.userIsFollowed = b

/-- The list of screen `i` is empty. -/
def Empty (app : App) (i : Nat) : Flag → Prop
  | didLike => ∀ feed, app.feeds[i]? = some feed → feed.posts = []
  | userIsFollowed => ∀ screen, app.notifications[i]? = some screen → screen.notifications = []

/-- The items of the list of screen `i` have ids of their own; a
notification's tells who it is from. -/
def Distinct (sender : DocId → Uid) (app : App) (i : Nat) : Flag → Prop
  | didLike => ∀ feed, app.feeds[i]? = some feed → (feed.posts.map (·.postId)).Nodup
  | userIsFollowed => ∀ screen, app.notifications[i]? = some screen →
      (screen.notifications.map (·.id)).Nodup ∧
        ∀ n ∈ screen.notifications, n.uid = sender n.id

/-- What a check that is answered does. -/
def set (i : Nat) (id : DocId) (b : Bool) : Flag → App → App
  | didLike, app => { app with feeds := app.feeds.modify i (FeedController.setDidLike id b) }
  | userIsFollowed, app =>
      { app with
        notifications := app.notifications.modify i (NotificationController.setIsFollowed id b) }

/-- A check of an item of screen `i`: it comes to set the flag to what
`edges` says, where `u` is signed in and the read is answered as `edges`
has it. -/
def check (u : Uid) (edges : String → Bool) (i : Nat) (flag : Flag) : Remedy sig Item where
  loc app := app.currentUser = some u
  ans
    | .getDocument r, a => r.collection = flag.collection u →
        ∃ data : Option Dictionary, a = some data ∧ data.isSome = edges r.id
    | _, _ => True
  cures x f := f = flag.set i x.id (edges x.key)

end Flag

/-- A list as it is read. -/
def DistinctAnswer (sender : DocId → Uid) : (q : Ask) → q.Ans → Prop
  | .getDocuments q, a => ∀ docs, a = some docs →
      (q.collection = .posts → (docs.map Prod.fst).Nodup) ∧
        ∀ uid, q.collection = .userNotifications uid →
          (docs.map fun x => Dictionary.string x.2 "id").Nodup ∧
            ∀ x ∈ docs, Dictionary.string x.2 "uid" = sender (Dictionary.string x.2 "id")
  | _, _ => True

/-! ## Setting a flag -/

/-- In a list with keys of its own, the change of the first element with a
key is the change of the one that has it. -/
theorem mem_modify_first {α : Type} {key : α → String} {f : α → α} {id : String} {l : List α}
    {y : α} (hnd : (l.map key).Nodup)
    (hy : y ∈ match l.findIdx? (key · == id) with
      | some i => l.modify i f
      | none => l) :
    (∃ x ∈ l, key x = id ∧ y = f x) ∨ (y ∈ l ∧ key y ≠ id) := by
  split at hy
  · next i hi =>
      obtain ⟨hlt, hkey, -⟩ := List.findIdx?_eq_some_iff_getElem.mp hi
      obtain ⟨j, hj, rfl⟩ := List.mem_iff_getElem.mp hy
      rw [List.getElem_modify]
      rw [List.length_modify] at hj
      split
      · next hij => subst hij; exact Or.inl ⟨_, List.getElem_mem hj, by simpa using hkey, rfl⟩
      · next hij =>
          refine Or.inr ⟨List.getElem_mem hj, fun hk => hij ?_⟩
          have hlen : i < (l.map key).length := by simpa using hlt
          have hlen' : j < (l.map key).length := by simpa using hj
          have heq : (l.map key)[i] = (l.map key)[j] := by
            rw [List.getElem_map, List.getElem_map, hk]
            simpa using hkey
          exact hnd.getElem_inj_iff.mp heq
  · next hnone =>
      refine Or.inr ⟨hy, fun hk => ?_⟩
      have := List.findIdx?_eq_none_iff.mp hnone y hy
      rw [hk, beq_self_eq_true] at this
      cases this

theorem map_modify_first {α β : Type} {key : α → String} {g : α → β} {f : α → α} {id : String}
    {l : List α} (hg : ∀ x, g (f x) = g x) :
    (match l.findIdx? (key · == id) with
      | some i => l.modify i f
      | none => l).map g = l.map g := by
  split
  · refine List.ext_getElem (by simp) fun j _ _ => ?_
    simp only [List.getElem_map, List.getElem_modify]
    split
    · exact hg _
    · rfl
  · rfl

section

variable {sender : DocId → Uid} {app : App} {i : Nat}

theorem setDidLike_post {id : DocId} {b : Bool} {feed : FeedController} :
    (feed.setDidLike id b).post = feed.post := by
  unfold FeedController.setDidLike; split <;> rfl

theorem setDidLike_posts {id : DocId} {b : Bool} {feed : FeedController} :
    (feed.setDidLike id b).posts = match feed.posts.findIdx? (·.postId == id) with
      | some i => feed.posts.modify i ({ · with didLike := b })
      | none => feed.posts := by
  unfold FeedController.setDidLike
  cases feed.posts.findIdx? (·.postId == id) <;> rfl

theorem setIsFollowed_notifications {id : DocId} {b : Bool} {screen : NotificationController} :
    (screen.setIsFollowed id b).notifications =
      match screen.notifications.findIdx? (·.id == id) with
      | some i => screen.notifications.modify i ({ · with userIsFollowed := b })
      | none => screen.notifications := by
  unfold NotificationController.setIsFollowed
  cases screen.notifications.findIdx? (·.id == id) <;> rfl

theorem map_setDidLike {id : DocId} {b : Bool} {feed : FeedController} :
    (feed.setDidLike id b).posts.map (·.postId) = feed.posts.map (·.postId) := by
  rw [setDidLike_posts]
  exact map_modify_first fun _ => rfl

theorem map_setIsFollowed {id : DocId} {b : Bool} {screen : NotificationController} :
    (screen.setIsFollowed id b).notifications.map (·.id) = screen.notifications.map (·.id) := by
  rw [setIsFollowed_notifications]
  exact map_modify_first fun _ => rfl

/-- What is shown once a flag is set: that flag, or what was shown before. -/
theorem shows_set {flag flag' : Flag} {j : Nat} {id : DocId} {b c : Bool} {x : Item}
    (h : flag.Distinct sender app i) (hs : flag.Shows (flag'.set j id b app) i x c) :
    (flag = flag' ∧ i = j ∧ x.id = id ∧ c = b ∧ ∃ c', flag.Shows app i x c') ∨
      flag.Shows app i x c ∧ ¬(flag = flag' ∧ i = j ∧ x.id = id) := by
  cases flag with
  | didLike =>
      cases flag' with
      | userIsFollowed => exact Or.inr ⟨hs, fun hf => by cases hf.1⟩
      | didLike =>
          obtain ⟨_, hfeed, hlist, post, hpost, hid, hkey, hc⟩ := hs
          obtain ⟨feed, hold, rfl⟩ := getElem?_modify_some hfeed
          by_cases hi : j = i
          · rw [if_pos hi] at hlist hpost
            rw [setDidLike_post] at hlist
            rw [setDidLike_posts] at hpost
            rcases mem_modify_first (h feed hold) hpost with ⟨p, hp, hpid, rfl⟩ | ⟨hp, hne⟩
            · exact Or.inl ⟨rfl, hi.symm, hid.symm.trans hpid, hc.symm, _, feed, hold, hlist, p,
                hp, hid, hkey, rfl⟩
            · exact Or.inr ⟨⟨feed, hold, hlist, post, hp, hid, hkey, hc⟩,
                fun hf => hne (hid.trans hf.2.2)⟩
          · rw [if_neg hi] at hlist hpost
            exact Or.inr ⟨⟨feed, hold, hlist, post, hpost, hid, hkey, hc⟩,
              fun hf => hi hf.2.1.symm⟩
  | userIsFollowed =>
      cases flag' with
      | didLike => exact Or.inr ⟨hs, fun hf => by cases hf.1⟩
      | userIsFollowed =>
          obtain ⟨_, hscreen, n, hn, htype, hid, hkey, hc⟩ := hs
          obtain ⟨screen, hold, rfl⟩ := getElem?_modify_some hscreen
          by_cases hi : j = i
          · rw [if_pos hi, setIsFollowed_notifications] at hn
            rcases mem_modify_first (h screen hold).1 hn with ⟨m, hm, hmid, rfl⟩ | ⟨hm, hne⟩
            · exact Or.inl ⟨rfl, hi.symm, hid.symm.trans hmid, hc.symm, _, screen, hold, m, hm,
                htype, hid, hkey, rfl⟩
            · exact Or.inr ⟨⟨screen, hold, n, hm, htype, hid, hkey, hc⟩,
                fun hf => hne (hid.trans hf.2.2)⟩
          · rw [if_neg hi] at hn
            exact Or.inr ⟨⟨screen, hold, n, hn, htype, hid, hkey, hc⟩,
              fun hf => hi hf.2.1.symm⟩

theorem distinct_set {flag flag' : Flag} {j : Nat} {id : DocId} {b : Bool}
    (h : flag.Distinct sender app i) : flag.Distinct sender (flag'.set j id b app) i := by
  cases flag with
  | didLike =>
      cases flag' with
      | userIsFollowed => exact h
      | didLike =>
          intro feed' hi
          obtain ⟨feed, hold, rfl⟩ := getElem?_modify_some hi
          split
          · rw [map_setDidLike]
            exact h feed hold
          · exact h feed hold
  | userIsFollowed =>
      cases flag' with
      | didLike => exact h
      | userIsFollowed =>
          intro screen' hi
          obtain ⟨screen, hold, rfl⟩ := getElem?_modify_some hi
          obtain ⟨hnd, hsender⟩ := h screen hold
          split
          · rw [map_setIsFollowed]
            refine ⟨hnd, fun n hn => ?_⟩
            rw [setIsFollowed_notifications] at hn
            rcases mem_modify_first hnd hn with ⟨m, hm, -, rfl⟩ | ⟨hn, -⟩
            · exact hsender m hm
            · exact hsender n hn
          · exact ⟨hnd, hsender⟩

/-- The lists of `app'` are those of `app`, or empty. -/
structure Emptied (app app' : App) : Prop where
  user : app'.currentUser = app.currentUser
  feeds : ∀ (i : Nat) feed', app'.feeds[i]? = some feed' → feed'.posts = [] ∨
    ∃ feed, app.feeds[i]? = some feed ∧ (feed'.post = none → feed.post = none) ∧
      feed'.posts = feed.posts
  notifications : ∀ (i : Nat) screen', app'.notifications[i]? = some screen' →
    screen'.notifications = [] ∨ ∃ screen, app.notifications[i]? = some screen ∧
      screen'.notifications = screen.notifications

theorem Emptied.distinct {app' : App} {flag : Flag} (he : Emptied app app')
    (h : flag.Distinct sender app i) : flag.Distinct sender app' i := by
  cases flag with
  | didLike =>
      intro feed' hi
      rcases he.feeds i feed' hi with hnil | ⟨feed, hi', -, hposts⟩
      · rw [hnil]; exact List.nodup_nil
      · rw [hposts]; exact h feed hi'
  | userIsFollowed =>
      intro screen' hi
      rcases he.notifications i screen' hi with hnil | ⟨screen, hi', hlist⟩
      · rw [hnil]; exact ⟨List.nodup_nil, fun n hn => by cases hn⟩
      · rw [hlist]; exact h screen hi'

theorem Emptied.shows {app' : App} {flag : Flag} {x : Item} {b : Bool} (he : Emptied app app')
    (hs : flag.Shows app' i x b) : flag.Shows app i x b := by
  cases flag with
  | didLike =>
      obtain ⟨feed', hi, hlist, post, hpost, h⟩ := hs
      rcases he.feeds _ _ hi with hnil | ⟨feed, hi', hmode, hposts⟩
      · rw [hnil] at hpost; cases hpost
      · exact ⟨feed, hi', hmode hlist, post, hposts ▸ hpost, h⟩
  | userIsFollowed =>
      obtain ⟨screen', hi, n, hn, h⟩ := hs
      rcases he.notifications _ _ hi with hnil | ⟨screen, hi', hlist⟩
      · rw [hnil] at hn; cases hn
      · exact ⟨screen, hi', n, hlist ▸ hn, h⟩

/-- A change of neither the lists nor the account. -/
theorem emptied_of_eq {app' : App} (hu : app'.currentUser = app.currentUser)
    (hf : app'.feeds = app.feeds) (hn : app'.notifications = app.notifications) :
    Emptied app app' where
  user := hu
  feeds _ feed' hi := Or.inr ⟨feed', hf ▸ hi, id, rfl⟩
  notifications _ screen' hi := Or.inr ⟨screen', hn ▸ hi, rfl⟩

theorem emptied_feed {g : FeedController → FeedController}
    (hg : ∀ feed, (g feed).posts = [] ∨
      ((g feed).post = none → feed.post = none) ∧ (g feed).posts = feed.posts) :
    Emptied app { app with feeds := app.feeds.modify i g } where
  user := rfl
  feeds j feed' hj := by
    obtain ⟨feed, hj', rfl⟩ := getElem?_modify_some hj
    split
    · exact (hg feed).imp_right fun h => ⟨feed, hj', h⟩
    · exact Or.inr ⟨feed, hj', id, rfl⟩
  notifications j screen' hj := Or.inr ⟨screen', hj, rfl⟩

theorem emptied_notifications {g : NotificationController → NotificationController}
    (hg : ∀ screen, (g screen).notifications = [] ∨
      (g screen).notifications = screen.notifications) :
    Emptied app { app with notifications := app.notifications.modify i g } where
  user := rfl
  feeds j feed' hj := Or.inr ⟨feed', hj, id, rfl⟩
  notifications j screen' hj := by
    obtain ⟨screen, hj', rfl⟩ := getElem?_modify_some hj
    split
    · exact (hg screen).imp_right fun h => ⟨screen, hj', h⟩
    · exact Or.inr ⟨screen, hj', rfl⟩

/-- A new screen comes with an empty list. -/
theorem emptied_push {feed : FeedController} (h : feed.posts = []) :
    Emptied app { app with feeds := app.feeds ++ [feed] } where
  user := rfl
  feeds j feed' hj := by
    rcases getElem?_push_some hj with hold | rfl
    · exact Or.inr ⟨feed', hold, id, rfl⟩
    · exact Or.inl h
  notifications j screen' hj := Or.inr ⟨screen', hj, rfl⟩

end

/-! ## Screens -/

/-- Memory where `u` is signed in and the list of screen `i` is distinct. -/
structure Listed (u : Uid) (sender : DocId → Uid) (flag : Flag) (i : Nat) (app : App) : Prop where
  user : app.currentUser = some u
  list : flag.Distinct sender app i

/-- What is wrong on the list of screen `i`, and the checks that put it
right. -/
def lists (u : Uid) (edges : String → Bool) (sender : DocId → Uid) (flag : Flag) (i : Nat) :
    Repair sig Item :=
  { flag.check u edges i with
    sane := Listed u sender flag i
    given := fun q a => (flag.check u edges i).ans q a ∧ DistinctAnswer sender q a
    wrong := fun x app => ∃ b, flag.Shows app i x b ∧ b ≠ edges x.key
    cure := by
      rintro x _ app rfl h ⟨b, hs, hb⟩
      rcases shows_set h.list hs with ⟨-, -, -, rfl, -⟩ | ⟨-, hne⟩
      · exact hb rfl
      · exact hne ⟨rfl, rfl, rfl⟩
    loc_of_sane := fun _ h => h.user
    ans_of_given := fun _ _ h => h.1 }

section

variable {u : Uid} {edges : String → Bool} {sender : DocId → Uid} {flag : Flag} {i j : Nat}

theorem Listed.emptied {app app' : App} (h : Listed u sender flag i app) (he : Emptied app app') :
    Listed u sender flag i app' := ⟨he.user.trans h.user, he.distinct h.list⟩

theorem listed_of_empty {app : App} (hu : app.currentUser = some u) (h : flag.Empty app i) :
    Listed u sender flag i app := by
  refine ⟨hu, ?_⟩
  cases flag with
  | didLike => exact fun feed hi => by rw [h feed hi]; exact List.nodup_nil
  | userIsFollowed =>
      intro screen hi
      rw [h screen hi]
      exact ⟨List.nodup_nil, fun n hn => by cases hn⟩

theorem not_shows_of_empty {app : App} {x : Item} {b : Bool} (h : flag.Empty app i) :
    ¬flag.Shows app i x b := by
  intro hs
  cases flag with
  | didLike =>
      obtain ⟨feed, hi, -, post, hpost, -⟩ := hs
      rw [h feed hi] at hpost
      cases hpost
  | userIsFollowed =>
      obtain ⟨screen, hi, n, hn, -⟩ := hs
      rw [h screen hi] at hn
      cases hn

theorem safe_modify {f : App → App} {n : Block} (hf : ∀ app, Emptied app (f app))
    (hn : (lists u edges sender flag i).Safe n) :
    (lists u edges sender flag i).Safe (.modify f n) := fun app h =>
  Repair.careful_modify (h.emptied (hf app)) (fun _ ⟨b, hs, hb⟩ => ⟨b, (hf app).shows hs, hb⟩)
    (hn _ (h.emptied (hf app)))

theorem safe_currentUid {k : Uid → Block} (hk : (lists u edges sender flag i).Safe (k u)) :
    (lists u edges sender flag i).Safe (currentUid k) := by
  refine fun app h => Repair.careful_get ?_
  rw [h.user]
  exact hk app h

/-- A read on the concurrent queue. -/
theorem safe_read {q : Ask} {handler : q.Ans → Block}
    (hh : ∀ a, (lists u edges sender flag i).given q a →
      (lists u edges sender flag i).Safe (handler a)) :
    (lists u edges sender flag i).Safe (.global (.ask q handler .done) .done) :=
  fun _ _ => ⟨⟨trivial, fun _ _ => ⟨fun a ha => hh a ha, trivial⟩⟩, trivial⟩

theorem safe_main {b : Block} (hb : (lists u edges sender flag i).Safe b) :
    (lists u edges sender flag i).Safe (.main b .done) := fun _ _ => ⟨hb, trivial⟩

theorem safe_done : (lists u edges sender flag i).Safe .done := fun _ _ => trivial

theorem safe_feed_get {k : FeedController → Block}
    (hk : ∀ feed, (lists u edges sender flag i).Safe (k feed)) :
    (lists u edges sender flag i).Safe (FeedController.get j k) := by
  refine fun app h => Repair.careful_get ?_
  cases app.feeds[j]? with
  | none => trivial
  | some feed => exact hk feed app h

theorem safe_notification_get {k : NotificationController → Block}
    (hk : ∀ screen, (lists u edges sender flag i).Safe (k screen)) :
    (lists u edges sender flag i).Safe (NotificationController.get j k) := by
  refine fun app h => Repair.careful_get ?_
  cases app.notifications[j]? with
  | none => trivial
  | some screen => exact hk screen app h

/-- The completion of a check sets the flag to what the read says: of this
flag, the truth. -/
theorem safe_set {g : Flag} {id : DocId} {b : Bool}
    (hb : flag = g → i = j → ∀ app x c, Listed u sender flag i app →
      flag.Shows app i x c → x.id = id → b = edges x.key) :
    (lists u edges sender flag i).Safe (.modify (g.set j id b) .done) := by
  refine fun app h => Repair.careful_modify ⟨?_, distinct_set h.list⟩ ?_ trivial
  · cases g <;> exact h.user
  · rintro x ⟨c, hs, hc⟩
    rcases shows_set h.list hs with ⟨hflag, hi, hid, rfl, c', hs'⟩ | ⟨hs', -⟩
    · exact absurd (hb hflag hi app x c' h hs' hid) hc
    · exact ⟨c, hs', hc⟩

/-! ## Posts -/

theorem safe_checkIfUserLikedPost {post : Post} {k : Bool → Block}
    (hk : ∀ b, (flag = .didLike → b = edges post.postId) →
      (lists u edges sender flag i).Safe (k b)) :
    (lists u edges sender flag i).Safe (PostService.checkIfUserLikedPost post k) := by
  refine safe_currentUid (safe_read fun a ha => ?_)
  cases a with
  | none => exact safe_done
  | some data =>
      refine hk _ fun hflag => ?_
      subst hflag
      obtain ⟨data', hdata, hedge⟩ := ha.1 rfl
      cases hdata
      exact hedge

/-- An answered check sets the flag of its post. -/
theorem mends_checkIfUserLikedPost {post : Post} {k : Bool → Block} {x : Item}
    (hk : (lists u edges sender .didLike i).Mends x (k (edges post.postId))) :
    (lists u edges sender .didLike i).Mends x (PostService.checkIfUserLikedPost post k) := by
  intro app (happ : app.currentUser = some u)
  simp only [happ]
  refine Or.inl (Or.inl fun a ha => ?_)
  obtain ⟨data, rfl, hedge⟩ := ha rfl
  have hedge : data.isSome = edges post.postId := hedge
  simpa only [hedge] using hk

theorem shows_key {app : App} {x : Item} {b : Bool} (h : Flag.didLike.Shows app i x b) :
    x.id = x.key := by
  obtain ⟨_, _, _, _, _, hid, hkey, _⟩ := h
  exact hid.symm.trans hkey

theorem safe_checkListedPost {post : Post} :
    (lists u edges sender flag i).Safe (PostService.checkIfUserLikedPost post fun didLike =>
      .main (FeedController.modify j (FeedController.setDidLike post.postId didLike)) .done) := by
  refine safe_checkIfUserLikedPost fun b hb => safe_main ?_
  refine safe_set (g := .didLike) fun hflag _ app x c _ hs hid => ?_
  subst hflag
  rw [hb rfl, ← shows_key hs, hid]

theorem safe_checkIfUserLikedPosts :
    (lists u edges sender flag i).Safe (FeedController.checkIfUserLikedPosts j) := by
  refine safe_feed_get fun feed => ?_
  cases feed.post with
  | some post =>
      refine safe_checkIfUserLikedPost fun b _ => safe_main (safe_modify (fun app => ?_) safe_done)
      exact emptied_feed fun feed => Or.inr ⟨Option.map_eq_none_iff.mp, rfl⟩
  | none => exact Repair.Careful.forEach fun post _ => safe_checkListedPost

/-- The checks of a list set the flag of each of its posts. -/
theorem mends_checkIfUserLikedPosts {app : App} {feed : FeedController} {post : Post}
    (h : Listed u sender .didLike i app) (hi : app.feeds[i]? = some feed)
    (hlist : feed.post = none) (hpost : post ∈ feed.posts) :
    (lists u edges sender .didLike i).Mends ⟨post.postId, post.postId⟩
      ((FeedController.checkIfUserLikedPosts i).start app) := by
  have hcode : (FeedController.checkIfUserLikedPosts i).start app =
      (Code.forEach feed.posts fun post =>
        PostService.checkIfUserLikedPost post fun didLike =>
          .main (FeedController.modify i (FeedController.setDidLike post.postId didLike))
            .done).start app := by
    simp only [FeedController.checkIfUserLikedPosts, FeedController.get, Code.start, hi, hlist]
  rw [hcode]
  refine Repair.mends_start (Remedy.Mends.forEach (a := post) ?_ hpost) h ?_
  · exact mends_checkIfUserLikedPost (Or.inl (Or.inl rfl))
  · exact Repair.Careful.forEach (r := lists u edges sender .didLike i)
      (fun post _ => safe_checkListedPost) app h

/-- A new list of posts, its flags to be set. -/
theorem safe_newPosts {posts : List Post} (hnd : (posts.map (·.postId)).Nodup) :
    (lists u edges sender flag i).Safe
      (FeedController.modify j (FeedController.setPosts posts) >>
        FeedController.checkIfUserLikedPosts j) := by
  intro app h
  have h' : Listed u sender flag i
      { app with feeds := app.feeds.modify j (FeedController.setPosts posts) } := by
    refine ⟨h.user, ?_⟩
    cases flag with
    | userIsFollowed => exact h.list
    | didLike =>
        intro feed' hi
        obtain ⟨feed, hold, rfl⟩ := getElem?_modify_some hi
        split
        · exact hnd
        · exact h.list feed hold
  refine ⟨⟨h', ?_⟩, safe_checkIfUserLikedPosts _ h'⟩
  rintro x ⟨b, hs, hb⟩
  cases flag with
  | userIsFollowed => exact Or.inl ⟨b, hs, hb⟩
  | didLike =>
      obtain ⟨_, hfeed, hlist, post, hpost, hid, hkey, hc⟩ := hs
      obtain ⟨feed, hold, rfl⟩ := getElem?_modify_some hfeed
      by_cases hi : j = i
      · rw [if_pos hi] at hfeed hlist hpost
        obtain ⟨_, _⟩ := x
        cases hi
        cases hid
        cases hkey
        exact Or.inr (mends_checkIfUserLikedPosts h' hfeed hlist hpost)
      · rw [if_neg hi] at hlist hpost
        exact Or.inl ⟨b, ⟨feed, hold, hlist, post, hpost, hid, hkey, hc⟩, hb⟩

theorem safe_feed_fetchPosts :
    (lists u edges sender flag i).Safe (FeedController.fetchPosts j) := by
  refine safe_feed_get fun feed => ?_
  cases feed.post with
  | some _ => exact safe_done
  | none =>
      refine safe_read fun a ha => ?_
      cases a with
      | none => exact safe_done
      | some docs =>
          refine fun _ _ v => safe_main (safe_newPosts ?_) _ ‹_›
          rw [PostService.posts, List.map_map]
          exact (ha.2 docs rfl).1 rfl

theorem safe_feed_viewDidLoad :
    (lists u edges sender flag i).Safe (FeedController.viewDidLoad j) := by
  refine fun _ h => Repair.Careful.andThen (safe_feed_get fun feed => ?_) h
    (safe_feed_fetchPosts _ h)
  split
  · exact safe_checkIfUserLikedPosts
  · exact safe_done

theorem safe_feed_handleRefresh :
    (lists u edges sender flag i).Safe (FeedController.handleRefresh j) :=
  safe_modify (fun _ => emptied_feed fun _ => Or.inl rfl) safe_feed_fetchPosts

theorem safe_cellForItemAt {row c : Nat} :
    (lists u edges sender flag i).Safe (FeedController.cellForItemAt j row c) := by
  refine safe_modify (fun app => emptied_feed fun feed => Or.inr ?_) safe_done
  split <;> exact ⟨id, rfl⟩

theorem safe_viewModel {c : Nat} {k : Post → Block}
    (hk : ∀ post, (lists u edges sender flag i).Safe (k post)) :
    (lists u edges sender flag i).Safe (FeedController.viewModel j c k) := by
  refine safe_feed_get fun feed => ?_
  cases feed.cells c with
  | none => exact safe_done
  | some post => exact hk post

theorem safe_didTapComment {c : Nat} :
    (lists u edges sender flag i).Safe (FeedController.didTapComment j c) :=
  safe_viewModel fun _ => safe_modify (fun _ => emptied_of_eq rfl rfl rfl) safe_done

theorem safe_showProfile {user : User} :
    (lists u edges sender flag i).Safe (FeedController.showProfile user) :=
  safe_modify (fun _ => emptied_of_eq rfl rfl rfl) safe_done

theorem safe_fetchUserWithUid {uid : Uid} {k : User → Block}
    (hk : ∀ user, (lists u edges sender flag i).Safe (k user)) :
    (lists u edges sender flag i).Safe (UserService.fetchUserWithUid uid k) := by
  refine safe_read fun a _ => ?_
  cases h : Option.join a with
  | none => exact safe_done
  | some data => exact safe_main (hk _)

theorem safe_tabUser {k : User → Block}
    (hk : ∀ user, (lists u edges sender flag i).Safe (k user)) :
    (lists u edges sender flag i).Safe (FeedController.tabUser k) := by
  refine fun app h => Repair.careful_get ?_
  cases app.user with
  | none => trivial
  | some user => exact hk user app h

theorem safe_didTapRemove {c : Nat} :
    (lists u edges sender flag i).Safe (FeedController.didTapRemove j c) :=
  safe_viewModel fun _ => safe_tabUser fun _ => safe_modify (fun _ => emptied_of_eq rfl rfl rfl)
    (safe_modify (fun _ => emptied_feed fun _ => Or.inr ⟨id, rfl⟩) safe_done)

theorem safe_showLoader {b : Bool} : (lists u edges sender flag i).Safe (showLoader b) :=
  safe_modify (fun _ => emptied_of_eq rfl rfl rfl) safe_done

theorem safe_answerAlert {k : Nat} {yes : Bool} :
    (lists u edges sender flag i).Safe (FeedController.answerAlert k yes) := by
  have hyes : ∀ post user,
      (lists u edges sender flag i).Safe (FeedController.yesAction post user) := by
    refine fun post user => safe_modify (fun _ => emptied_of_eq rfl rfl rfl) fun _ h' => ?_
    refine Repair.Careful.andThen safe_showLoader h' (safe_currentUid ?_ _ h')
    split
    · exact fun _ _ => ⟨fun _ => safe_done, trivial⟩
    · exact safe_done
  intro app h
  unfold FeedController.answerAlert
  simp only [Repair.Careful]
  split
  · trivial
  · refine safe_modify ?_ ?_ app h
    · exact fun _ => emptied_of_eq rfl rfl rfl
    · split
      · exact hyes _ _
      · exact safe_done

/-! ## Notifications -/

theorem safe_checkIfUserIsFollowed {uid : Uid} {k : Bool → Block}
    (hk : ∀ b, (flag = .userIsFollowed → b = edges uid) →
      (lists u edges sender flag i).Safe (k b)) :
    (lists u edges sender flag i).Safe (UserService.checkIfUserIsFollowed uid k) := by
  refine safe_currentUid (safe_read fun a ha => ?_)
  cases a with
  | none => exact safe_done
  | some data =>
      refine safe_main (hk _ fun hflag => ?_)
      subst hflag
      obtain ⟨data', hdata, hedge⟩ := ha.1 rfl
      cases hdata
      exact hedge

theorem mends_checkIfUserIsFollowed {uid : Uid} {k : Bool → Block} {x : Item}
    (hk : (lists u edges sender .userIsFollowed i).Mends x (k (edges uid))) :
    (lists u edges sender .userIsFollowed i).Mends x (UserService.checkIfUserIsFollowed uid k) := by
  intro app (happ : app.currentUser = some u)
  simp only [happ]
  refine Or.inl (Or.inl fun a ha => ?_)
  obtain ⟨data, rfl, hedge⟩ := ha rfl
  have hedge : data.isSome = edges uid := hedge
  refine Or.inl ?_
  simpa only [hedge] using hk

/-- The check of one notification of a list. -/
theorem safe_checkNotification {n : Notification}
    (hn : flag = .userIsFollowed → i = j → n.uid = sender n.id) :
    (lists u edges sender flag i).Safe
      (if n.type = .follow then
        UserService.checkIfUserIsFollowed n.uid fun isFollowed =>
          NotificationController.modify j (NotificationController.setIsFollowed n.id isFollowed)
      else .done) := by
  split
  · refine safe_checkIfUserIsFollowed fun b hb => ?_
    refine safe_set (g := .userIsFollowed) fun hflag hi app x c h hs hid => ?_
    subst hflag
    obtain ⟨screen, hscreen, m, hm, -, hmid, hkey, -⟩ := hs
    rw [hb rfl, hn rfl hi, ← hkey, (h.list screen hscreen).2 m hm, hmid, hid]
  · exact safe_done

theorem safe_notification_checkIfUserIsFollowed :
    (lists u edges sender flag i).Safe (NotificationController.checkIfUserIsFollowed j) := by
  refine fun app h => Repair.careful_get ?_
  cases hi : app.notifications[j]? with
  | none => trivial
  | some screen =>
      refine Repair.Careful.forEach (fun n hn => safe_checkNotification fun hflag hij => ?_) app h
      subst hflag hij
      exact (h.list screen hi).2 n hn

theorem mends_notification_checkIfUserIsFollowed {app : App}
    {screen : NotificationController} {n : Notification}
    (h : Listed u sender .userIsFollowed i app) (hi : app.notifications[i]? = some screen)
    (hn : n ∈ screen.notifications) (htype : n.type = .follow) :
    (lists u edges sender .userIsFollowed i).Mends ⟨n.id, n.uid⟩
      ((NotificationController.checkIfUserIsFollowed i).start app) := by
  have hcode : (NotificationController.checkIfUserIsFollowed i).start app =
      (Code.forEach screen.notifications fun n =>
        if n.type = .follow then
          UserService.checkIfUserIsFollowed n.uid fun isFollowed =>
            NotificationController.modify i (NotificationController.setIsFollowed n.id isFollowed)
        else .done).start app := by
    simp only [NotificationController.checkIfUserIsFollowed, NotificationController.get,
      Code.start, hi]
  rw [hcode]
  refine Repair.mends_start (Remedy.Mends.forEach (a := n) ?_ hn) h ?_
  · rw [if_pos htype]
    exact mends_checkIfUserIsFollowed (Or.inl rfl)
  · exact Repair.Careful.forEach (r := lists u edges sender .userIsFollowed i)
      (fun n hn => safe_checkNotification fun _ _ => (h.list screen hi).2 n hn) app h

/-- A new list of notifications, its flags to be set. -/
theorem safe_newNotifications {notifications : List Notification}
    (hnd : (notifications.map (·.id)).Nodup) (hsender : ∀ n ∈ notifications, n.uid = sender n.id) :
    (lists u edges sender flag i).Safe
      (NotificationController.modify j (NotificationController.setNotifications notifications) >>
        NotificationController.checkIfUserIsFollowed j) := by
  intro app h
  have h' : Listed u sender flag i { app with
      notifications := app.notifications.modify j
        (NotificationController.setNotifications notifications) } := by
    refine ⟨h.user, ?_⟩
    cases flag with
    | didLike => exact h.list
    | userIsFollowed =>
        intro screen' hi
        obtain ⟨screen, hold, rfl⟩ := getElem?_modify_some hi
        split
        · exact ⟨hnd, hsender⟩
        · exact h.list screen hold
  refine ⟨⟨h', ?_⟩, safe_notification_checkIfUserIsFollowed _ h'⟩
  rintro x ⟨b, hs, hb⟩
  cases flag with
  | didLike => exact Or.inl ⟨b, hs, hb⟩
  | userIsFollowed =>
      obtain ⟨_, hscreen, n, hn, htype, hid, hkey, hc⟩ := hs
      obtain ⟨screen, hold, rfl⟩ := getElem?_modify_some hscreen
      by_cases hi : j = i
      · rw [if_pos hi] at hscreen hn
        obtain ⟨_, _⟩ := x
        cases hi
        cases hid
        cases hkey
        exact Or.inr (mends_notification_checkIfUserIsFollowed h' hscreen hn htype)
      · rw [if_neg hi] at hn
        exact Or.inl ⟨b, ⟨screen, hold, n, hn, htype, hid, hkey, hc⟩, hb⟩

theorem safe_fetchNotifications :
    (lists u edges sender flag i).Safe (NotificationController.fetchNotifications j) := by
  refine safe_currentUid (safe_read fun a ha => ?_)
  cases a with
  | none => exact safe_done
  | some docs =>
      obtain ⟨hnd, hsender⟩ := (ha.2 docs rfl).2 u rfl
      refine fun _ _ v => safe_main (safe_newNotifications ?_ ?_) _ ‹_›
      · rw [List.map_map]
        exact hnd
      · simp only [List.mem_map, forall_exists_index, and_imp]
        rintro _ x hx rfl
        exact hsender x hx

theorem safe_notification_handleRefresh :
    (lists u edges sender flag i).Safe (NotificationController.handleRefresh j) :=
  safe_main (safe_modify (fun _ => emptied_notifications fun _ => Or.inl rfl)
    safe_fetchNotifications)

theorem safe_cellForRowAt {row c : Nat} :
    (lists u edges sender flag i).Safe (NotificationController.cellForRowAt j row c) := by
  refine safe_modify (fun app => emptied_notifications fun screen => Or.inr ?_) safe_done
  split <;> rfl

theorem safe_notificationSelect {row : Nat} :
    (lists u edges sender flag i).Safe (NotificationController.didSelectRowAt j row) := by
  have hk : ∀ user, (lists u edges sender flag i).Safe
      (showLoader false >> FeedController.showProfile user) := fun _ =>
    safe_modify (fun _ => emptied_of_eq rfl rfl rfl) safe_showProfile
  refine safe_notification_get fun screen => ?_
  cases screen.notifications[row]? with
  | none => exact safe_done
  | some n => exact safe_modify (fun _ => emptied_of_eq rfl rfl rfl) (safe_fetchUserWithUid hk)

theorem safe_wantsToViewPost {p : DocId} :
    (lists u edges sender flag i).Safe (NotificationController.wantsToViewPost p) := by
  refine safe_modify (fun _ => emptied_of_eq rfl rfl rfl) (safe_read fun a _ => ?_)
  cases Option.join a with
  | none => exact safe_done
  | some data =>
      refine fun _ h v => safe_main ?_ _ h
      refine safe_modify (fun _ => emptied_of_eq rfl rfl rfl) ?_
      exact safe_modify (fun _ => emptied_push rfl) safe_done

theorem safe_handlePostTapped {c : Nat} :
    (lists u edges sender flag i).Safe (NotificationController.handlePostTapped j c) := by
  refine safe_notification_get fun screen => ?_
  cases screen.cells c with
  | none => exact safe_done
  | some n =>
      cases hp : n.postId with
      | none => simp only [hp]; exact safe_done
      | some p => simp only [hp]; exact safe_wantsToViewPost

end

/-! ## Every run -/

/-- What is done on the screens with lists, but for liking and following. -/
def Action.browses : Action → Bool
  | feedDidLoad _ | feedWillAppear _ | feedRefresh _ | feedCell .. | tapComment .. | tapUser ..
  | tapRemove .. | answerAlert .. | notificationDidLoad _ | notificationRefresh _
  | notificationCell .. | tapPost .. | notificationSelect .. => true
  | _ => false

theorem safe_action {u : Uid} {edges : String → Bool} {sender : DocId → Uid} {flag : Flag} {i : Nat}
    {a : Action} (h : a.browses = true) : (lists u edges sender flag i).Safe a.block := by
  cases a with
  | feedDidLoad j => exact safe_feed_viewDidLoad
  | feedWillAppear j => exact safe_feed_fetchPosts
  | feedRefresh j => exact safe_feed_handleRefresh
  | feedCell j row c => exact safe_cellForItemAt
  | tapComment j c => exact safe_didTapComment
  | tapUser j c => exact safe_viewModel fun _ => safe_fetchUserWithUid fun _ => safe_showProfile
  | tapRemove j c => exact safe_didTapRemove
  | answerAlert k yes => exact safe_answerAlert
  | notificationDidLoad j => exact safe_fetchNotifications
  | notificationRefresh j => exact safe_notification_handleRefresh
  | notificationCell j row c => exact safe_cellForRowAt
  | tapPost j c => exact safe_handlePostTapped
  | notificationSelect j row => exact safe_notificationSelect
  | _ => cases h

/-- On `d` the lists are loaded, refreshed and looked at, and no call fails;
nobody changes what `flag` tells of the account `u`. -/
structure Browsing {D : Type} (flag : Flag) (d : D) (u : Uid) (w : World village D)
    (e : Event village D) : Prop where
  acts : ∀ a, e = .act d a → Action.browses a = true
  answers : ∀ i err, e ≠ .answer d i (.fail err)
  listeners : ∀ i c, e ≠ .notify d i c
  edges : ∀ d' fail m ms, e = .commit d' fail → (w.devices d').writes = m :: ms →
    (DocWrite.ref m.write).collection ≠ flag.collection u

section

variable {D : Type} [DecidableEq D] {d : D} {u : Uid} {flag : Flag} {i : Nat}
  {w₀ w w' : World village D} {e : Event village D}

theorem Browsing.present (h : Browsing flag d u w e) (hs : Stepped w e w') (x : String) :
    w'.server.present ⟨flag.collection u, x⟩ = w.server.present ⟨flag.collection u, x⟩ := by
  cases presentStep hs ⟨flag.collection u, x⟩ with
  | same h _ => exact h
  | @put d' b m ms he hw hputs _ _ =>
      refine absurd ?_ (h.edges d' none m ms he hw)
      cases hwr : m.write <;> rw [hwr] at hputs <;> cases hputs <;> rfl

/-- What the calls on `d` are answered with. -/
theorem Browsing.given {edges : String → Bool} {sender : DocId → Uid} {log : Log D}
    (h : Browsing flag d u w e) (hs : Stepped w e w') (hrun : Run (fun _ _ => True) emptyWorld w)
    (hlog : w.log <:+ log) (hedges : ∀ x, w.server.present ⟨flag.collection u, x⟩ = edges x)
    (hsender : ∀ x ∈ log, ∀ uid i data,
      x.obs = .wrote (.setData ⟨.userNotifications uid, i⟩ data) none →
      Dictionary.string data "uid" = sender (Dictionary.string data "id"))
    {t : Call} {q : Ask} {a : q.Ans} {srv : Server} (hans : e.Answers w d t q a srv) :
    (lists u edges sender flag i).given q a := by
  obtain ⟨c, hfail, hv⟩ : ∃ c, (∀ err, c ≠ .fail err) ∧
      Server.serve q c w.server = some (a, srv) := by
    cases hans with
    | answer hi hv => exact ⟨_, fun err hc => h.answers _ err (by rw [hc]), hv⟩
    | notify hi hv => exact absurd rfl (h.listeners _ _)
  cases q with
  | getDocument r =>
      cases c <;> cases hv
      · refine ⟨?_, trivial⟩
        rintro hr
        refine ⟨_, rfl, ?_⟩
        rw [← hedges, ← hr]
        rfl
      · exact absurd rfl (hfail _)
  | getDocuments q =>
      cases c <;> cases hv
      · refine ⟨trivial, ?_⟩
        rintro docs ⟨⟩
        refine ⟨fun _ => w.server.docs.nodup_select q, fun uid hq =>
          ⟨nodup_notices hrun hq, fun x hx => ?_⟩⟩
        have hget := (Documents.mem_select.mp hx).1
        rw [hq] at hget
        obtain ⟨y, hy, ho⟩ := notice_wrote hrun hget
        exact hsender y (hlog.subset hy) _ _ _ ho
      · exact absurd rfl (hfail _)
  | _ => exact ⟨trivial, trivial⟩

/-- A list that is empty to begin with, browsed in any order: a flag that
is wrong has a check coming, and with nothing outstanding none is wrong. -/
theorem flags_of_run (hbefore : Run (fun _ _ => True) emptyWorld w₀)
    (hidle : (w₀.devices d).idle = true) (hu : (w₀.devices d).loc.currentUser = some u)
    (hempty : flag.Empty (w₀.devices d).loc i)
    (hrun : Run (Browsing flag d u) w₀ w) :
    (∀ x b, flag.Shows (w.devices d).loc i x b →
      b ≠ w.server.present ⟨flag.collection u, x.key⟩ →
      (flag.check u (fun y => w.server.present ⟨flag.collection u, y⟩) i).Due x (w.devices d)) ∧
      ((w.devices d).idle = true → ∀ x b, flag.Shows (w.devices d).loc i x b →
        b = w.server.present ⟨flag.collection u, x.key⟩) := by
  obtain ⟨sender, hsender⟩ := exists_sender (hbefore.trans (hrun.mono fun _ _ _ => trivial))
  let edges : String → Bool := fun y => w₀.server.present ⟨flag.collection u, y⟩
  have hinv : (∀ y, w.server.present ⟨flag.collection u, y⟩ = edges y) ∧
      (lists u edges sender flag i).Tended (w.devices d) := by
    refine hrun.along.inv (fun w : World village D => (∀ y, w.server.present ⟨flag.collection u, y⟩ = edges y) ∧
      (lists u edges sender flag i).Tended (w.devices d)) ⟨fun _ => rfl, ?_⟩ ?_
    · refine Repair.tended_of_idle hidle (listed_of_empty hu hempty) ?_
      exact fun x ⟨b, hs, _⟩ => not_shows_of_empty hempty hs
    · rintro w₁ e w₂ ⟨hedges, htended⟩ ⟨hok, hrun₁, hlog⟩ hs
      refine ⟨fun y => (hok.present hs y).trans (hedges y), ?_⟩
      exact htended.step hs (fun a he => safe_action (hok.acts a he))
        (fun t q a srv hans => hok.given hs (hbefore.trans (hrun₁.mono fun _ _ _ => trivial))
          hlog hedges hsender hans) hok.listeners
  obtain ⟨hedges, htended⟩ := hinv
  have heq : (fun y => w.server.present ⟨flag.collection u, y⟩) = edges := funext hedges
  refine ⟨fun x b hs hb => ?_, fun hid x b hs => ?_⟩
  · rw [heq]
    exact htended.due x ⟨b, hs, hedges x.key ▸ hb⟩
  · by_contra hb
    exact htended.not_wrong hid ⟨b, hs, hedges x.key ▸ hb⟩

end

/-- Alice likes her post on one device and signs in on another. -/
def likedElsewhere : World village Bool :=
  emptyWorld
    |> smooth.perform true (.signUp "alice@dog.kr" "secret" "Alice" "alice" ⟨some []⟩) 100
    |> smooth.perform true (.didFinishPicking ⟨some []⟩) 100
    |> smooth.perform true (.tapDone 0 "walk") 100
    |> smooth.perform true (.feedCell 0 0 0) 100
    |> smooth.perform true (.tapLike 0 0) 100
    |> smooth.perform false (.login "alice@dog.kr" "secret") 100

/-- Her feed there has loaded. -/
def listedElsewhere : World village Bool :=
  smooth.perform false (.feedDidLoad 0) 100 likedElsewhere

def Server.Choice.isOk : Server.Choice → Bool
  | ok => true
  | _ => false

def browsed (_ : World village Bool) : Event village Bool → Bool
  | .act _ a => a.browses
  | .answer _ _ c => Server.Choice.isOk c
  | .next _ | .run .. => true
  | .commit .. | .notify .. => false

theorem browsing_of_browsed {flag : Flag} {d : Bool} {u : Uid} {w : World village Bool}
    {e : Event village Bool} (h : browsed w e = true) : Browsing flag d u w e where
  acts a he := by subst he; exact h
  answers i err he := by subst he; cases h
  listeners i c he := by subst he; cases h
  edges d' fail m ms he _ := by subst he; cases h

theorem flags_listedElsewhere :
    Flag.didLike.Shows (listedElsewhere.devices false).loc 0 ⟨"n3", "n3"⟩ true ∧
      ∀ x b, Flag.didLike.Shows (listedElsewhere.devices false).loc 0 x b →
        b = listedElsewhere.server.present ⟨.userLikes "n1", x.key⟩ := by
  refine ⟨⟨_, rfl, rfl, _, List.mem_singleton_self _, rfl, rfl, rfl⟩, ?_⟩
  have hbefore : Run (fun _ _ => True) emptyWorld likedElsewhere := by
    unfold likedElsewhere
    iterate 6
      refine Policy.run_perform (fun _ _ _ => trivial) trivial ?_
    exact .refl
  have hempty : Flag.didLike.Empty (likedElsewhere.devices false).loc 0 := by
    intro feed hi
    cases hi
    rfl
  have hrun : Run (Browsing .didLike false "n1") likedElsewhere listedElsewhere :=
    Policy.run_checks (fun _ _ => browsing_of_browsed) (by decide) .refl
  exact (flags_of_run hbefore rfl rfl hempty hrun).2 rfl

end DogVillage
