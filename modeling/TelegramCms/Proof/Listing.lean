import TelegramCms.Model.Listing

/-!
# Walking the pages

Whoever wants all rows asks for one page after the other until one is empty. Neither
listing is sorted by a key that is unique: rows that were written in one transaction share
their time. So a row can be on two pages, and another one on none.

`Listing.once_iff`: the pages list every row once, in whatever orders the database returns
rows with equal times, exactly if no such rows come to lie on different pages.
-/

namespace TelegramCms

open Paging

/-! ## Parameters -/

theorem parseInt_toDigits (n : Nat) :
    parseInt (Nat.toDigits 10 n) = if n < int64Bound then some (n : Int) else none := by
  have hvalue : digitsValue (Nat.toDigits 10 n) = some n := by
    have hdigits : (Nat.toDigits 10 n).all Char.isDigit = true :=
      List.all_eq_true.mpr fun c hc => Nat.isDigit_of_mem_toDigits (by decide) (by decide) hc
    rw [digitsValue, if_pos ⟨Nat.toDigits_ne_nil, hdigits⟩, Nat.ofDigitChars_ten_toDigits]
  unfold parseInt
  -- there is no sign
  split
  · rename_i heq
    exact absurd (heq ▸ List.mem_cons_self) (Py.notMem_toDigits (by decide) n)
  · rename_i heq
    exact absurd (heq ▸ List.mem_cons_self) (Py.notMem_toDigits (by decide) n)
  · rw [hvalue, Option.bind_some]

/-- The request for the page of `size` rows at `offset`. -/
def pageQuery (q : Values) (size offset : Nat) : Values :=
  ("limit", Nat.toDigits 10 size) :: ("offset", Nat.toDigits 10 offset) :: q

section Pages

variable {ρ : Type} {listing : Listing ρ} {key : ρ → Time} {rows : List ρ} {p : ρ → Bool}
  {q : Values} {size : Nat}

/-- The answers to the requests for the pages, up to the first empty one, and their rows. -/
def Walk (answer : Nat → Except HttpAnswer (Paginated ρ)) (listed : List ρ) : Prop :=
  ∃ n, ∃ pages : Nat → List ρ,
    (∀ k ≤ n, ∃ page, answer k = .ok page ∧ page.items = pages k)
      ∧ pages n = [] ∧ (∀ k < n, pages k ≠ []) ∧ listed = (List.range n).flatMap pages

/-- The property: whatever the database answers, a walk lists each matching row once. -/
def ListsOnce (handler : Selection ρ → Values → Except HttpAnswer (Paginated ρ))
    (key : ρ → Time) (rows : List ρ) (q : Values) (p : ρ → Bool) (size : Nat) : Prop :=
  ∀ dbs : Nat → Selection ρ, (∀ k, (dbs k).Answers key rows) →
    ∃ listed, Walk (fun k => handler (dbs k) (pageQuery q size (k * size))) listed
      ∧ listed.Perm (rows.filter p)

/-! ## One page -/

/-- Where the page really begins: an offset that does not fit is ignored. -/
def startOf (offset : Nat) : Nat := if offset < int64Bound then offset else 0

theorem offset_pageQuery (offset : Nat) :
    Listing.offset (pageQuery q size offset) = (startOf offset : Int) := by
  have hget : (pageQuery q size offset).get "offset" = Nat.toDigits 10 offset := rfl
  rw [Listing.offset, hget, parseInt_toDigits, startOf]
  split <;> rfl

theorem limit_pageQuery {offset : Nat} (hmax : (size : Int) ≤ listing.maxLimit)
    (hsize : size < int64Bound) : listing.limit (pageQuery q size offset) = .ok size := by
  have hget : (pageQuery q size offset).get "limit" = Nat.toDigits 10 size := rfl
  rw [Listing.limit, hget, if_neg Nat.toDigits_ne_nil, parseInt_toDigits, if_pos hsize]
  exact if_neg (Int.not_lt.mpr hmax)

/-- The answer to the request for a page. -/
theorem handle_page {db : Selection ρ} {order : List ρ} {offset : Nat}
    (hmax : (size : Int) ≤ listing.maxLimit) (hsize : size < int64Bound)
    (hfilter : listing.filter (pageQuery q size offset) = .ok p)
    (hdb : db.Answers key rows)
    (hsel : db.select p size (startOf offset) = some ((order.drop (startOf offset)).take size)) :
    ∃ page, listing.handle db (pageQuery q size offset) = .ok page
      ∧ page.items = (order.drop (startOf offset)).take size := by
  refine ⟨⟨_, rows.countP p, size, startOf offset⟩, ?_, rfl⟩
  rw [Listing.handle, hfilter, limit_pageQuery hmax hsize, offset_pageQuery]
  simp only [bind, Except.bind, hdb.count, hsel, Option.elim]
  rfl

/-- A database may return the matching rows in any order that fits their times. -/
theorem exists_answers {order : List ρ} (ho : Ordered key (rows.filter p) order) :
    ∃ db : Selection ρ, db.Answers key rows
      ∧ ∀ limit offset : Nat, db.select p limit offset = some ((order.drop offset).take limit) := by
  classical
  choose sorted hsorted using fun p' : ρ → Bool => exists_ordered key (rows.filter p')
  refine ⟨⟨fun p' => some (rows.countP p'), fun p' limit offset =>
      some (((if p' = p then order else sorted p').drop offset.toNat).take limit.toNat)⟩,
    ⟨fun _ => rfl, fun p' limit offset => ⟨if p' = p then order else sorted p', ?_, rfl⟩⟩,
    fun limit offset => ?_⟩
  · split
    · rename_i he
      rw [he]
      exact ho
    · exact hsorted p'
  · simp

/-! ## The walk -/

section Once

variable {dbs : Nat → Selection ρ} {orders : Nat → List ρ}

/-- What has been requested of a listing: the page size and the filter are valid. -/
structure Requested (listing : Listing ρ) (q : Values) (p : ρ → Bool) (size : Nat) : Prop where
  pos : 0 < size
  max : (size : Int) ≤ listing.maxLimit
  fits : size < int64Bound
  filter : ∀ offset, listing.filter (pageQuery q size offset) = .ok p

/-- The pages of a walk. -/
theorem walk_pages (hr : Requested listing q p size) (hdb : ∀ k, (dbs k).Answers key rows)
    (hsel : ∀ k (limit offset : Nat),
      (dbs k).select p limit offset = some (((orders k).drop offset).take limit)) (k : Nat) :
    ∃ page, listing.handle (dbs k) (pageQuery q size (k * size)) = .ok page
      ∧ page.items = ((orders k).drop (startOf (k * size))).take size :=
  handle_page hr.max hr.fits (hr.filter _) (hdb k) (hsel k size (startOf (k * size)))

/-- In a walk the pages are those of the orders, up to the first one that is empty. -/
theorem Walk.pages {listed : List ρ} (hr : Requested listing q p size)
    (hdb : ∀ k, (dbs k).Answers key rows)
    (hsel : ∀ k (limit offset : Nat),
      (dbs k).select p limit offset = some (((orders k).drop offset).take limit))
    (hw : Walk (fun k => listing.handle (dbs k) (pageQuery q size (k * size))) listed) :
    ∃ n, ((orders n).drop (startOf (n * size))).take size = []
      ∧ listed = (List.range n).flatMap
          (fun k => ((orders k).drop (startOf (k * size))).take size) := by
  obtain ⟨n, pages, hpage, hlast, -, rfl⟩ := hw
  have hall : ∀ k ≤ n, pages k = ((orders k).drop (startOf (k * size))).take size := by
    intro k hk
    obtain ⟨page, hok, hitems⟩ := hpage k hk
    obtain ⟨page', hok', hitems'⟩ := walk_pages hr hdb hsel k
    obtain rfl := Except.ok.inj (hok.symm.trans hok')
    rw [← hitems, hitems']
  refine ⟨n, (hall n (Nat.le_refl n)).symm.trans hlast, List.flatMap_congr fun k hk => ?_⟩
  exact hall k (Nat.le_of_lt (List.mem_range.mp hk))

/-- A page at an offset that fits is the page of that number. -/
theorem page_startOf {l : List ρ} {k : Nat} (hk : k * size < int64Bound) :
    (l.drop (startOf (k * size))).take size = page size k l := by
  rw [startOf, if_pos hk, page]

/-- The first empty page is the one after the last row, and its offset fits. -/
theorem last_page {l : List ρ} {n : Nat} (hs : 0 < size)
    (hlast : (l.drop (startOf (n * size))).take size = []) :
    l.length ≤ n * size ∧ pageCount size l.length * size < int64Bound := by
  have hempty : l.length ≤ startOf (n * size) := by
    rcases List.take_eq_nil_iff.mp hlast with h | h
    · omega
    · exact List.drop_eq_nil_iff.mp h
  have hle : startOf (n * size) ≤ n * size := by
    unfold startOf
    split <;> omega
  have hlt : startOf (n * size) < int64Bound := by
    unfold startOf
    split
    · assumption
    · decide
  refine ⟨Nat.le_trans hempty hle, ?_⟩
  by_cases hfit : n * size < int64Bound
  · have hcount : pageCount size l.length ≤ n := by
      rw [← Nat.not_lt, lt_pageCount_iff hs, Nat.not_lt]
      exact Nat.le_trans hempty hle
    exact Nat.lt_of_le_of_lt (Nat.mul_le_mul_right size hcount) hfit
  · -- the request was answered with the first page, and that is empty only if nothing matches
    rw [startOf, if_neg hfit] at hempty
    have hzero : ¬ 0 < pageCount size l.length := by
      rw [lt_pageCount_iff hs]
      omega
    rw [Nat.eq_zero_of_not_pos hzero, Nat.zero_mul]
    decide

/-- **A walk lists every row once, whatever the database answers, exactly if the rows with
one time come to lie on one page, and the offset of the last page fits.** -/
theorem Listing.once_iff (hr : Requested listing q p size) (hnodup : rows.Nodup) :
    ListsOnce listing.handle key rows q p size
      ↔ Unsplit key size (rows.filter p)
        ∧ pageCount size (rows.filter p).length * size < int64Bound := by
  have hs := hr.pos
  constructor
  · intro h
    have hfit : pageCount size (rows.filter p).length * size < int64Bound := by
      obtain ⟨order, ho⟩ := exists_ordered key (rows.filter p)
      obtain ⟨db, hdb, hsel⟩ := exists_answers ho
      obtain ⟨listed, hw, -⟩ := h (fun _ => db) (fun _ => hdb)
      have hsels := fun _ : Nat => hsel
      obtain ⟨n, hlast, -⟩ := hw.pages hr (fun _ => hdb) hsels
      rw [← ho.perm.length_eq]
      exact (last_page hs hlast).2
    refine ⟨?_, hfit⟩
    by_contra hsplit
    obtain ⟨orders, ho, k, x, hk, hx, hx'⟩ := exists_repeated hs hsplit
    choose dbs hdb hsel using fun k => exists_answers (ho k)
    obtain ⟨listed, hw, hperm⟩ := h dbs hdb
    obtain ⟨n, hlast, rfl⟩ := hw.pages hr hdb hsel
    have hkn : k + 1 < n := by
      have hlen := (last_page hs hlast).1
      rw [(ho n).perm.length_eq] at hlen
      exact Nat.lt_of_mul_lt_mul_right (Nat.lt_of_lt_of_le hk hlen)
    have hoff : (k + 1) * size < int64Bound :=
      Nat.lt_of_le_of_lt
        (Nat.mul_le_mul_right size (Nat.le_of_lt ((lt_pageCount_iff hs).mpr hk))) hfit
    have hoff' : k * size < int64Bound :=
      Nat.lt_of_le_of_lt (Nat.mul_le_mul_right size (Nat.le_succ k)) hoff
    -- a row on two pages is listed twice
    have hdisj := (List.nodup_flatMap.mp (hperm.symm.nodup (hnodup.filter p))).2
    have hpair := List.pairwise_iff_getElem.mp hdisj k (k + 1) (by simp; omega) (by simpa using hkn)
      (Nat.lt_succ_self k)
    simp only [List.getElem_range, Function.onFun, page_startOf hoff, page_startOf hoff'] at hpair
    exact hpair hx hx'
  · rintro ⟨hu, hfit⟩ dbs hdb
    choose orders ho hsel using fun k => (hdb k).select p size (startOf (k * size))
    have hpage : ∀ k ≤ pageCount size (rows.filter p).length, ∃ pg,
        listing.handle (dbs k) (pageQuery q size (k * size)) = .ok pg
          ∧ pg.items = page size k (orders k) := by
      intro k hk
      rw [← page_startOf (Nat.lt_of_le_of_lt (Nat.mul_le_mul_right size hk) hfit)]
      exact handle_page hr.max hr.fits (hr.filter _) (hdb k) (hsel k)
    refine ⟨_, ⟨_, _, hpage, ?_, ?_, rfl⟩, pages_perm hs hu ho ?_⟩
    · by_contra hne
      have hlt := (page_ne_nil_iff hs).mp hne
      rw [(ho _).perm.length_eq, ← lt_pageCount_iff hs] at hlt
      exact Nat.lt_irrefl _ hlt
    · intro k hk
      rw [page_ne_nil_iff hs, (ho k).perm.length_eq]
      exact (lt_pageCount_iff hs).mp hk
    · rw [← Nat.not_lt, ← lt_pageCount_iff hs]
      exact Nat.lt_irrefl _

end Once

end Pages

/-! ## The two listings -/

theorem queue_requested {q : Values} {p : Post → Bool} {size : Nat} (hp : queueFilter q = .ok p)
    (h1 : 1 ≤ size) (hsize : size ≤ 200) : Requested queueListing q p size where
  pos := h1
  max := Int.ofNat_le.mpr hsize
  fits := Nat.lt_of_le_of_lt hsize (by decide)
  filter _ := hp

theorem audit_requested {q : Values} {p : PostEventRow → Bool} {size : Nat}
    (hp : auditFilter q = .ok p) (h1 : 1 ≤ size) (hsize : size ≤ 500) :
    Requested auditListing q p size where
  pos := h1
  max := Int.ofNat_le.mpr hsize
  fits := Nat.lt_of_le_of_lt hsize (by decide)
  filter _ := hp

def PostEventRow.createdAt (row : PostEventRow) : Time := row.event.createdAt

/--
**A walk through the queue, and one through the audit log, lists every matching row
once, whatever the database answers, exactly if the matching rows with one time come to lie
on one page (and the offset of the last page fits).**

The query orders by a time and leaves the order of ties to the database, which may answer each
page with another. Ties on one page do no harm; of a tie across a page break some answer shows
one row on both pages and another on none (`Listing.once_iff`).
-/
theorem lists_once_iff (posts : Table Nat Post Post.id)
    (events : Table Nat PostEventRow PostEventRow.id) (q : Values) (size : Nat) (h1 : 1 ≤ size) :
    (∀ p, queueFilter q = .ok p → size ≤ 200 →
      (ListsOnce handleListQueue Post.receivedAt posts.rows q p size
        ↔ Unsplit Post.receivedAt size (posts.rows.filter p)
          ∧ pageCount size (posts.rows.filter p).length * size < int64Bound))
    ∧ ∀ p, auditFilter q = .ok p → size ≤ 500 →
      (ListsOnce handleListEvents PostEventRow.createdAt events.rows q p size
        ↔ Unsplit PostEventRow.createdAt size (events.rows.filter p)
          ∧ pageCount size (events.rows.filter p).length * size < int64Bound) := by
  constructor
  · intro p hp hsize
    exact Listing.once_iff (queue_requested hp h1 hsize) (List.Nodup.of_map _ posts.unique)
  · intro p hp hsize
    exact Listing.once_iff (audit_requested hp h1 hsize) (List.Nodup.of_map _ events.unique)

/-- Posts that were received at these times. -/
def samplePosts (times : List Time) : Table Nat Post Post.id where
  rows := times.zipIdx.map (fun t => {
    id := t.2, sourceChannelId := 1, sourceMessageId := t.2, rawText := none, receivedAt := t.1 })
  unique := by
    have hids : (times.zipIdx.map (fun t : Time × Nat => ({
        id := t.2, sourceChannelId := 1, sourceMessageId := t.2, rawText := none,
        receivedAt := t.1 } : Post))).map Post.id = times.zipIdx.map Prod.snd := by
      rw [List.map_map]
      rfl
    rw [hids, List.zipIdx_map_snd]
    exact List.nodup_range'

/-- What a run of `normalize` with an AI stage writes, in one transaction. -/
def normalizedEvents (now : Time) : Table Nat PostEventRow PostEventRow.id where
  rows := [⟨1, { postId := 1, action := .aiTransformed, createdAt := now }⟩,
    ⟨2, { postId := 1, action := .edited, createdAt := now }⟩]
  unique := show ([1, 2] : List Nat).Nodup by decide

/-- Three posts on two pages, and two events on one. -/
theorem lists_once_iff_three :
    (∃ p, queueFilter [] = .ok p
      ∧ ListsOnce handleListQueue Post.receivedAt (samplePosts [5, 7, 6]).rows [] p 2)
    ∧ ∃ p, auditFilter [] = .ok p
      ∧ ListsOnce handleListEvents PostEventRow.createdAt (normalizedEvents 9).rows [] p 2 := by
  have h := lists_once_iff (samplePosts [5, 7, 6]) (normalizedEvents 9) [] 2 (by decide)
  exact ⟨⟨_, rfl, (h.1 _ rfl (by decide)).mpr (by decide +kernel)⟩,
    ⟨_, rfl, (h.2 _ rfl (by decide)).mpr (by decide +kernel)⟩⟩

/-- On pages of one row the two events may come out as one event twice. -/
theorem normalized_listed_twice :
    ∃ p, auditFilter [] = .ok p
      ∧ ¬ ListsOnce handleListEvents PostEventRow.createdAt (normalizedEvents 9).rows [] p 1 := by
  refine ⟨_, rfl, fun h => ?_⟩
  have hu := (Listing.once_iff (audit_requested rfl (by decide) (by decide))
    (List.Nodup.of_map _ (normalizedEvents 9).unique)).mp h
  exact absurd hu.1 (by decide +kernel)

end TelegramCms
