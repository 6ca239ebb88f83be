import DogVillage.Services

/-!
# What a service delivers

A service that reads from the server and hands what it read to its
completion: which values the completion may be given, the server standing
still meanwhile.
-/

namespace DogVillage

open Async

/-- The first block, its calls answered by the server, comes to run the second. -/
inductive Comes (srv : Server) : Block → Block → Prop
  | here {k} : Comes srv k k
  | global {body next k} (h : Comes srv body k) : Comes srv (.global body next) k
  | main {body next k} (h : Comes srv body k) : Comes srv (.main body next) k
  | ask {q handler next k c a srv'} (hs : Server.serve q c srv = some (a, srv'))
      (h : Comes srv (handler a) k) : Comes srv (.ask q handler next) k
  | env {f k e} (h : Comes srv (f e) k) : Comes srv (.env f) k

variable {α : Type} {srv : Server}

/-- A service may hand `x` to its completion. -/
def Delivers (srv : Server) (service : (α → Block) → Block) (x : α) : Prop :=
  ∀ completion, Comes srv (service completion) (completion x)

/-! ## Inversion

A completion is a block like any other; one that marks the memory with the
value it is given tells the values apart. -/

section

variable {g : α → App → App} {x y : α}

/-- A completion that stores the value it is given. -/
def storing (g : α → App → App) (x : α) : Block := .modify (g x) .done

theorem eq_of_comes_storing (hg : Function.Injective g)
    (h : Comes srv (storing g y) (storing g x)) : x = y := by
  generalize hk : storing g x = k at h
  cases h
  exact hg (Code.modify.inj hk).1

theorem eq_of_comes_main (hg : Function.Injective g)
    (h : Comes srv (.main (storing g y) .done) (storing g x)) : x = y := by
  generalize hk : storing g x = k at h
  cases h with
  | here => cases hk
  | main h => subst hk; exact eq_of_comes_storing hg h

theorem comes_env {f : Env → Block} (h : Comes srv (.env f) (storing g x)) :
    ∃ e, Comes srv (f e) (storing g x) := by
  generalize hk : storing g x = k at h ⊢
  cases h with
  | here => cases hk
  | env h => exact ⟨_, h⟩

/-- A query that fails delivers nothing. -/
theorem comes_query {q : Query Collection Value}
    {handler : Option (List (DocId × Dictionary)) → Block} (hnone : handler none = .done)
    (h : Comes srv (.global (.ask (.getDocuments q) handler .done) .done) (storing g x)) :
    Comes srv (handler (some (srv.docs.select q))) (storing g x) := by
  generalize hk : storing g x = k at h ⊢
  cases h with
  | here => cases hk
  | global h =>
      cases h with
      | here => cases hk
      | @ask _ _ _ _ c a srv' hs h =>
          cases c with
          | fail e =>
              cases hs
              rw [hnone] at h
              cases h
              cases hk
          | ok => cases hs; exact h
          | _ => cases hs

end

/-! ## The lists -/

/-- `COLLECTION_POSTS.order(by: "timestamp", descending: true)` -/
def postsByTime : Query Collection Value :=
  { collection := .posts, orderBy := some "timestamp" }

/-- `COLLECTION_POSTS.whereField("ownerUid", isEqualTo: uid)` -/
def postsOf (uid : Uid) : Query Collection Value :=
  { collection := .posts, whereField := some ("ownerUid", .string uid) }

/-- Put a list of posts, or of users, on a screen. -/
def storePosts (l : List Post) (app : App) : App := { app with searches := [{ posts := l }] }

def storeUsers (l : List User) (app : App) : App := { app with searches := [{ users := l }] }

theorem storePosts_injective : Function.Injective storePosts := fun l l' h => by
  simpa [storePosts] using congrArg (fun f => (f ({} : App)).searches.map (·.posts)) h

theorem storeUsers_injective : Function.Injective storeUsers := fun l l' h => by
  simpa [storeUsers] using congrArg (fun f => (f ({} : App)).searches.map (·.users)) h

variable {uid : Uid}

theorem delivers_fetchPosts {l : List Post} : Delivers srv PostService.fetchPosts l ↔
    ∃ now, l = PostService.posts (srv.docs.select postsByTime) now := by
  constructor
  · intro h
    obtain ⟨e, h⟩ := comes_env (comes_query rfl (h (storing storePosts)))
    exact ⟨e.now, eq_of_comes_main storePosts_injective h⟩
  · rintro ⟨now, rfl⟩ completion
    exact .global (.ask (c := .ok) rfl (.env (e := ⟨"", now⟩) (.main .here)))

theorem delivers_fetchPostsForUser {l : List Post} :
    Delivers srv (PostService.fetchPostsForUser uid) l ↔
      ∃ now, l = PostService.sortBySeconds
        (PostService.posts (srv.docs.select (postsOf uid)) now) := by
  constructor
  · intro h
    obtain ⟨e, h⟩ := comes_env (comes_query rfl (h (storing storePosts)))
    exact ⟨e.now, eq_of_comes_main storePosts_injective h⟩
  · rintro ⟨now, rfl⟩ completion
    exact .global (.ask (c := .ok) rfl (.env (e := ⟨"", now⟩) (.main .here)))

theorem delivers_fetchUsers {l : List User} : Delivers srv UserService.fetchUsers l ↔
    l = (srv.docs.select { collection := .users }).map fun document => User.init document.2 := by
  constructor
  · intro h
    exact eq_of_comes_main storeUsers_injective (comes_query rfl (h (storing storeUsers)))
  · rintro rfl completion
    exact .global (.ask (c := .ok) rfl (.main .here))

end DogVillage
