import LiorParisWallet.Accounts.Services
import Mathlib.Data.List.Chain
import Mathlib.Data.Nat.Notation

/-!
# Following the pagination links

`GET /users` counts its pages with the limit of the query string, and reads its rows with the limit that
`PaginationQueryDto` has clamped.  The walk along `links.next` visits every user exactly once when the two
limits lead to the same number of pages.
-/

namespace LiorParisWallet.Accounts

open Relational

/-! ## The endpoint -/

structure PaginationQueryDto where
  page : ℤ
  limit : ℤ

/-- The constructor of `PaginationQueryDto`. -/
def PaginationQueryDto.new (page limit : ℤ) : PaginationQueryDto where
  page := max page 1
  limit := min (max limit 1) 100

structure PaginatedResultDto (α : Type) where
  data : List α
  total : ℕ

/-- The columns that `findAll` selects, without the dates. -/
structure UserResource where
  id : String
  name : String
  email : String
  role : UserRole
deriving DecidableEq, Repr

def Users.resource (u : Users) : UserResource :=
  ⟨u.id, u.name, u.email, u.role⟩

/-- `UsersRepository.findAll`: the table lists its rows in a fixed order. -/
def World.findAll (w : World) (query : PaginationQueryDto) : PaginatedResultDto UserResource where
  data := ((w.users.rows.drop ((query.page - 1) * query.limit).toNat).take query.limit.toNat).map
    Users.resource
  total := w.users.rows.length

/-- `Math.ceil(total / limitNumber)` -/
inductive PageCount where
  | finite (n : ℤ)
  | infinity
  | nan
deriving DecidableEq, Repr

def totalPages (total : ℕ) (limitNumber : ℤ) : PageCount :=
  if limitNumber = 0 then
    if total = 0 then .nan else .infinity
  else
    .finite (-Int.fdiv (-total) limitNumber)

/-- `pageNumber < totalPages` -/
def PageCount.exceeds (pageNumber : ℤ) : PageCount → Bool
  | .finite n => pageNumber < n
  | .infinity => true
  | .nan => false

/-- `/users?page=${page}&limit=${limit}` -/
structure PageLink where
  page : ℤ
  limit : ℤ
deriving DecidableEq, Repr

/-- The document that `findAll` answers with. -/
structure Page where
  data : List UserResource
  total : ℕ
  totalPages : PageCount
  prev : Option PageLink
  next : Option PageLink
deriving DecidableEq, Repr

/-- `UsersController.findAll`; a parameter that is not a number is `none`. -/
def findAll (w : World) (page limit : Option ℤ) : Page :=
  let pageNumber := page.getD 1
  let limitNumber := limit.getD 10
  let query := PaginationQueryDto.new pageNumber limitNumber
  let result := w.findAll query
  let totalPages := totalPages result.total limitNumber
  { data := result.data
    total := result.total
    totalPages
    prev := if pageNumber > 1 then some ⟨pageNumber - 1, limitNumber⟩ else none
    next := if totalPages.exceeds pageNumber then some ⟨pageNumber + 1, limitNumber⟩ else none }

/-- The request that a link stands for. -/
def follow (w : World) (l : PageLink) : Page :=
  findAll w (some l.page) (some l.limit)

/-! ## The walk -/

/-- The links visited from `l` on, up to a page without a next link. -/
inductive Walk (w : World) : PageLink → List PageLink → Prop where
  | last {l : PageLink} : (follow w l).next = none → Walk w l [l]
  | next {l l' : PageLink} {ls : List PageLink} :
      (follow w l).next = some l' → Walk w l' ls → Walk w l (l :: ls)

/-- The walk from the first page ends after the pages `visited`, and they are the table. -/
structure VisitsAll (w : World) (limit : ℤ) (visited : List PageLink) : Prop where
  walk : Walk w ⟨1, limit⟩ visited
  data : (visited.flatMap fun l => (follow w l).data).Perm (w.users.rows.map Users.resource)
  totalPages : ∀ l ∈ visited, (follow w l).totalPages = .finite visited.length
  first : (follow w ⟨1, limit⟩).prev = none
  prev : visited.IsChain fun l l' => (follow w l').prev = some l

/-- Reading pages of at most 100 rows covers the table in as many pages as `limit` promises: the limit is
    not clamped, or the table ends within `k + 1` pages of 100 rows, and not within `k` pages of `limit`. -/
def Covers (total : ℕ) (limit : ℤ) : Prop :=
  1 ≤ limit ∧ (limit ≤ 100 ∨ ∃ k : ℕ, limit * k < total ∧ total ≤ 100 * (k + 1))

variable {w : World} {limit : ℤ}

theorem Walk.mem {l : PageLink} {visited : List PageLink} (h : Walk w l visited) : l ∈ visited := by
  cases h with
  | last => exact List.mem_singleton_self l
  | next => exact List.mem_cons_self

theorem next_eq (l : PageLink) : (follow w l).next =
    if (totalPages w.users.rows.length l.limit).exceeds l.page then some ⟨l.page + 1, l.limit⟩
      else none :=
  rfl

/-- With the limit 0 there is no last page. -/
theorem Walk.limit_ne_zero {l : PageLink} {visited : List PageLink} (h : Walk w l visited)
    (hne : w.users.rows ≠ []) : l.limit ≠ 0 := by
  induction h with
  | @last l hnext =>
    intro h0
    have hlength : w.users.rows.length ≠ 0 := fun h => hne (List.length_eq_zero_iff.mp h)
    rw [next_eq, h0, totalPages, if_pos rfl, if_neg hlength] at hnext
    cases hnext
  | @next l l' ls hnext _ ih =>
    rw [next_eq] at hnext
    split at hnext
    · cases hnext
      exact ih
    · cases hnext

/-- The ceiling of a quotient. -/
theorem ceil_spec {n limit : ℤ} (h : 1 ≤ limit) :
    (-Int.fdiv (-n) limit - 1) * limit < n ∧ n ≤ -Int.fdiv (-n) limit * limit := by
  have hdiv := Int.fdiv_mul_add_fmod (-n) limit
  have hnonneg := Int.fmod_nonneg_of_pos (-n) (show 0 < limit by omega)
  have hlt := Int.fmod_lt_of_pos (-n) (show 0 < limit by omega)
  constructor
  · rw [Int.sub_mul, Int.neg_mul]
    omega
  · rw [Int.neg_mul]
    omega

theorem totalPages_of_pos {total : ℕ} (h : 1 ≤ limit) :
    totalPages total limit = .finite (-Int.fdiv (-total) limit) :=
  if_neg (by omega)

/-- A page has no more rows than the clamped limit. -/
theorem length_data_le (l : PageLink) :
    (follow w l).data.length ≤ (PaginationQueryDto.new l.page l.limit).limit.toNat := by
  refine (List.length_map _).trans_le ?_
  exact List.length_take_le _ _

/-- `m` pages have at most `m` times the clamped limit. -/
theorem length_flatMap_data_le {visited : List PageLink}
    (h : ∀ l ∈ visited, l.limit = limit) :
    (visited.flatMap fun l => (follow w l).data).length ≤
      visited.length * (PaginationQueryDto.new 1 limit).limit.toNat := by
  induction visited with
  | nil => simp
  | cons l visited ih =>
    have hl := length_data_le (w := w) l
    rw [h l List.mem_cons_self] at hl
    have ih := ih fun l' hl' => h l' (List.mem_cons_of_mem l hl')
    simp only [List.flatMap_cons, List.length_append, List.length_cons, Nat.succ_mul]
    simp only [PaginationQueryDto.new] at hl ih ⊢
    omega

/-- The links of a walk keep the limit. -/
theorem Walk.limit_eq {l : PageLink} {visited : List PageLink} (h : Walk w l visited) :
    ∀ l' ∈ visited, l'.limit = l.limit := by
  induction h with
  | last => simp
  | @next l l' ls hnext _ ih =>
    rw [next_eq] at hnext
    split at hnext
    · cases hnext
      intro l'' hl''
      cases hl'' with
      | head => rfl
      | tail _ hl'' => exact ih l'' hl''
    · cases hnext

/-! ## The pages one after another -/

/-- `m` links from page `k + 1` on. -/
def links (limit : ℤ) (k : ℕ) : ℕ → List PageLink
  | 0 => []
  | m + 1 => ⟨k + 1, limit⟩ :: links limit (k + 1) m

@[simp] theorem length_links (k m : ℕ) : (links limit k m).length = m := by
  induction m generalizing k with
  | zero => rfl
  | succ m ih => simp [links, ih]

theorem limit_of_mem_links {k m : ℕ} {l : PageLink} (h : l ∈ links limit k m) : l.limit = limit := by
  induction m generalizing k with
  | zero => cases h
  | succ m ih =>
    cases h with
    | head => rfl
    | tail _ h => exact ih h

/-- The walk goes through the pages up to the last one. -/
theorem walk_links {last : ℕ} (hpages : totalPages w.users.rows.length limit = .finite last) (k m : ℕ)
    (h : k + (m + 1) = last) : Walk w ⟨k + 1, limit⟩ (links limit k (m + 1)) := by
  induction m generalizing k with
  | zero =>
    refine .last ?_
    rw [next_eq, hpages]
    refine if_neg ?_
    simp only [PageCount.exceeds, decide_eq_true_eq]
    omega
  | succ m ih =>
    refine .next ?_ (ih (k + 1) (by omega))
    rw [next_eq, hpages]
    refine if_pos ?_
    simp only [PageCount.exceeds, decide_eq_true_eq]
    omega

/-- Each link leads back to the one before. -/
theorem isChain_links (k m : ℕ) :
    (links limit k m).IsChain fun l l' => (follow w l').prev = some l := by
  induction m generalizing k with
  | zero => exact .nil
  | succ m ih =>
    cases m with
    | zero => exact .singleton _
    | succ m =>
      refine .cons_cons ?_ (ih (k + 1))
      refine (if_pos ?_).trans ?_
      · simp only [Option.getD_some]
        omega
      · simp

/-- What a page shows when its limit is not less than 1. -/
theorem data_eq {k : ℕ} (h : 1 ≤ limit) : (follow w ⟨k + 1, limit⟩).data =
    ((w.users.rows.drop (k * (min limit 100).toNat)).take (min limit 100).toNat).map Users.resource := by
  have hlimit : min (max limit 1) 100 = ((min limit 100).toNat : ℤ) := by omega
  have hpage : max ((k : ℤ) + 1) 1 - 1 = (k : ℤ) := by omega
  simp only [follow, findAll, World.findAll, PaginationQueryDto.new, Option.getD_some, hlimit, hpage,
    Int.toNat_natCast, ← Int.natCast_mul]

/-- The pages, put end to end, are a part of the table. -/
theorem flatMap_data_links (h : 1 ≤ limit) (k m : ℕ) :
    ((links limit k m).flatMap fun l => (follow w l).data) =
      ((w.users.rows.drop (k * (min limit 100).toNat)).take (m * (min limit 100).toNat)).map
        Users.resource := by
  induction m generalizing k with
  | zero => simp [links]
  | succ m ih =>
    rw [links, List.flatMap_cons, ih, data_eq h, ← List.map_append, Nat.succ_mul k,
      ← List.drop_drop, ← List.take_add, Nat.succ_mul m, Nat.add_comm]

/-! ## When the walk is complete -/

theorem covers_of_visitsAll {visited : List PageLink} (hne : w.users.rows ≠ [])
    (h : VisitsAll w limit visited) : Covers w.users.rows.length limit := by
  have hlength : 0 < w.users.rows.length := List.length_pos_iff.mpr hne
  have hvisited : 0 < visited.length := List.length_pos_of_mem h.walk.mem
  have hzero := h.walk.limit_ne_zero hne
  have hcount : totalPages w.users.rows.length limit = .finite visited.length :=
    h.totalPages _ h.walk.mem
  have hcount := (if_neg hzero).symm.trans hcount
  have hcount : -Int.fdiv (-w.users.rows.length) limit = visited.length := PageCount.finite.inj hcount
  have hlimit : 1 ≤ limit := by
    -- with a negative limit the endpoint counts no pages, but shows one
    by_contra hneg
    have := Int.fdiv_nonneg_of_nonpos_of_nonpos (a := -w.users.rows.length) (b := limit) (by omega)
      (by omega)
    omega
  refine ⟨hlimit, or_iff_not_imp_left.mpr fun hbig => ⟨visited.length - 1, ?_, ?_⟩⟩
  · have hceil := (ceil_spec (n := w.users.rows.length) hlimit).1
    rw [hcount] at hceil
    rw [Int.mul_comm]
    exact_mod_cast (by rwa [Int.natCast_sub hvisited] : ((visited.length - 1 : ℕ) : ℤ) * limit < _)
  · have hdata := h.data.length_eq
    have hle := length_flatMap_data_le (w := w) h.walk.limit_eq
    have hclamped : (PaginationQueryDto.new 1 limit).limit.toNat = 100 := by
      simp only [PaginationQueryDto.new]
      omega
    simp only [hdata, List.length_map, hclamped] at hle
    omega

theorem visitsAll_of_covers (hne : w.users.rows ≠ []) (h : Covers w.users.rows.length limit) :
    ∃ visited, VisitsAll w limit visited := by
  obtain ⟨hlimit, hcovers⟩ := h
  have hlength : 0 < w.users.rows.length := List.length_pos_iff.mpr hne
  have hupper := (ceil_spec (n := w.users.rows.length) hlimit).2
  have hcount : totalPages w.users.rows.length limit = _ := totalPages_of_pos hlimit
  generalize -Int.fdiv (-w.users.rows.length) limit = n at hupper hcount
  have hpos : 0 < n := by
    by_contra hn
    have := Int.mul_le_mul_of_nonneg_right (show n ≤ 0 by omega) (show 0 ≤ limit by omega)
    omega
  obtain ⟨m, rfl⟩ : ∃ m : ℕ, n = (m + 1 : ℕ) := ⟨n.toNat - 1, by omega⟩
  have hrows : w.users.rows.length ≤ (m + 1) * (min limit 100).toNat := by
    by_cases hsmall : limit ≤ 100
    · have hclamped : ((min limit 100).toNat : ℤ) = limit := by omega
      zify
      rw [hclamped]
      exact_mod_cast hupper
    · obtain ⟨k, hlower, hmany⟩ := hcovers.resolve_left hsmall
      -- fewer pages would not reach the end of the table with the limit of the query
      have hk : k ≤ m := by
        by_contra hlt
        have := Int.mul_le_mul_of_nonneg_right (show ((m + 1 : ℕ) : ℤ) ≤ k by omega)
          (show 0 ≤ limit by omega)
        rw [Int.mul_comm] at hlower
        omega
      have hclamped : (min limit 100).toNat = 100 := by omega
      rw [hclamped]
      omega
  refine ⟨links limit 0 (m + 1), walk_links hcount 0 m (Nat.zero_add _), ?_, ?_, rfl, isChain_links 0 _⟩
  · rw [flatMap_data_links hlimit, Nat.zero_mul, List.drop_zero, List.take_of_length_le hrows]
  · intro l hl
    rw [length_links]
    exact (congrArg (totalPages _) (limit_of_mem_links hl)).trans hcount

/-- For every table that is not empty and every limit: following the next links from the first page ends,
    the pages show every user exactly once, their number is the one announced and the previous links lead
    back, if and only if pages of at most 100 users cover the table in as many pages as the limit of the
    query asks for. -/
theorem visits_all_iff (w : World) (hne : w.users.rows ≠ []) (limit : ℤ) :
    (∃ visited, VisitsAll w limit visited) ↔ Covers w.users.rows.length limit :=
  ⟨fun ⟨_, h⟩ => covers_of_visitsAll hne h, visitsAll_of_covers hne⟩

theorem visits_all_start : ∃ visited, VisitsAll startWorld 1 visited :=
  (visits_all_iff startWorld (List.cons_ne_nil _ _) 1).mpr ⟨by decide, .inl (by decide)⟩

/-- With the limit 0 there is always a next page, and from the third page on it is empty. -/
theorem endless_walk : (¬ ∃ visited, VisitsAll startWorld 0 visited) ∧
    (follow startWorld ⟨3, 0⟩).data = [] ∧ (follow startWorld ⟨3, 0⟩).next = some ⟨4, 0⟩ := by
  refine ⟨?_, rfl, rfl⟩
  rintro ⟨visited, h⟩
  exact h.walk.limit_ne_zero (List.cons_ne_nil _ _) rfl

end LiorParisWallet.Accounts
