import TelegramCms.Model.Passwords

/-!
# What a stored hash lets verification do

`hashPassword` writes a PHC string and `verifyPassword` reads one back (`readHash_text`).
But the reader also takes texts that are no PHC string: it looks at nothing in front of the
first `$`, not at the version's value, and at nothing behind a number. And it hands the
numbers it read to `argon2.IDKey` as they are, which panics on some of them and on others
asks for memory that the process is not given.

So verification is total and exact on the texts of which it reads nothing, and on PHC strings
whose costs it can afford. `exact_iff` says that no other text is safe with every key
derivation that keeps to its documentation, and that with the one in use all others fail at
each password for which the answer is not false.
-/

namespace TelegramCms.Passwords

/-- A complete argon2id PHC string, by its fields. -/
structure Phc where
  memory : UInt32
  time : UInt32
  parallelism : UInt8
  salt : Text
  hash : Text
  time_pos : 1 ≤ time
  parallelism_pos : 1 ≤ parallelism
  salt_valid : Base64.Valid salt
  hash_valid : Base64.Valid hash
  hash_ne : hash ≠ []

/-- Its fields as they are written, each behind a `$`. -/
def Phc.fields (q : Phc) : List Text :=
  [argon2id, versionKey ++ decimal 19,
    memoryKey ++ decimal q.memory.toNat ++ timeKey ++ decimal q.time.toNat
      ++ parallelismKey ++ decimal q.parallelism.toNat,
    q.salt, q.hash]

def Phc.text (q : Phc) : Text := ['$'].intercalate ([] :: q.fields)

/-- The stored text is a complete PHC string, and its hash is what the password comes to
under the salt and the costs in it. -/
def Matches (A : Argon2) (password encoded : Text) : Prop :=
  ∃ (q : Phc) (salt hash : List UInt8), encoded = q.text ∧
    Base64.decode q.salt = some salt ∧ Base64.decode q.hash = some hash ∧
      A.idKey (utf8 password) salt q.time q.memory q.parallelism (.ofNat hash.length) = some hash

/-- Verification of a password against a stored text is total and exact. -/
structure Exact (A : Argon2) (password encoded : Text) : Prop where
  returns : verifyPassword A password encoded ≠ none
  sound : verifyPassword A password encoded = some true → Matches A password encoded
  complete : ∀ salt, hashPassword A salt password = some encoded →
    verifyPassword A password encoded = some true

/-- What was read is something the key derivation works with, given so much memory. -/
structure Workable (available : Nat) (h : Stored) : Prop where
  time_pos : 1 ≤ h.timeCost
  parallelism_pos : 1 ≤ h.parallelism
  /-- The length of the key is handed over in 32 bits. -/
  hash_ne : h.want.length % 2 ^ 32 ≠ 0
  fits : Argon2.blocks h.memory h.parallelism ≤ available

/-- A text that is read at all is workable, and is a PHC string unless its hash is longer than
any key. -/
def WellStored (available : Nat) (encoded : Text) : Prop :=
  ∀ h, readHash encoded = some h →
    Workable available h ∧ ((∃ q : Phc, encoded = q.text) ∨ 2 ^ 32 ≤ h.want.length)

/-! ## Reading a PHC string -/

theorem Phc.not_mem_dollar (q : Phc) : ∀ s ∈ q.fields, '$' ∉ s := by
  have hdec (n : Nat) : '$' ∉ decimal n := Py.notMem_toDigits rfl n
  have hname : '$' ∉ argon2id := by decide
  have hv : '$' ∉ versionKey := by decide
  have hm : '$' ∉ memoryKey := by decide
  have ht : '$' ∉ timeKey := by decide
  have hp : '$' ∉ parallelismKey := by decide
  intro s hs
  simp only [Phc.fields, List.mem_cons, List.not_mem_nil, or_false] at hs
  rcases hs with rfl | rfl | rfl | rfl | rfl
  · exact hname
  · simp only [List.mem_append, not_or]
    exact ⟨hv, hdec _⟩
  · simp only [List.mem_append, not_or]
    exact ⟨⟨⟨⟨⟨hm, hdec _⟩, ht⟩, hdec _⟩, hp⟩, hdec _⟩
  · exact q.salt_valid.not_mem_dollar
  · exact q.hash_valid.not_mem_dollar

/-- The text in front of the first `$` is a field of its own. -/
theorem Phc.splitOn_front (q : Phc) {front : Text} (h : '$' ∉ front) :
    (front ++ q.text).splitOn '$' = front :: q.fields := by
  have hnot : ∀ s ∈ front :: q.fields, '$' ∉ s := List.forall_mem_cons.mpr ⟨h, q.not_mem_dollar⟩
  rw [← List.splitOn_intercalate '$' hnot (List.cons_ne_nil _ _)]
  rfl

theorem scanVersion_decimal {n : Nat} (h : n < 9223372036854775808) :
    scanVersion (versionKey ++ decimal n) = some (n : Int) := by
  have hscan := Scanf.scanInt_toDigits h [] (by simp)
  rw [List.append_nil] at hscan
  simp only [scanVersion, Scanf.literal_append, decimal, hscan, Option.bind_eq_bind,
    Option.bind_some]
  rfl

theorem scanCosts_decimal (memory time : UInt32) (parallelism : UInt8) :
    scanCosts (memoryKey ++ decimal memory.toNat ++ timeKey ++ decimal time.toNat
      ++ parallelismKey ++ decimal parallelism.toNat) = some (memory, time, parallelism) := by
  have hp := Scanf.scanUint_toDigits parallelism.toNat_lt [] (by simp)
  rw [List.append_nil] at hp
  have ht := Scanf.scanUint_toDigits time.toNat_lt (parallelismKey ++ decimal parallelism.toNat)
    (by intro c hc; cases hc; rfl)
  have hm := Scanf.scanUint_toDigits memory.toNat_lt
    (timeKey ++ (decimal time.toNat ++ (parallelismKey ++ decimal parallelism.toNat)))
    (by intro c hc; cases hc; rfl)
  simp only [scanCosts, List.append_assoc, Scanf.literal_append, decimal, Option.bind_eq_bind,
    Option.bind_some] at hm ht hp ⊢
  simp only [hm, ht, hp, Scanf.literal_append, Option.bind_some, UInt32.ofNat_toNat,
    UInt8.ofNat_toNat]
  rfl

/-- A PHC string is read back field by field, whatever stands in front of it. -/
theorem readHash_front (q : Phc) {front : Text} (h : '$' ∉ front) {salt hash : List UInt8}
    (hs : Base64.decode q.salt = some salt) (hh : Base64.decode q.hash = some hash) :
    readHash (front ++ q.text) = some ⟨q.memory, q.time, q.parallelism, salt, hash⟩ := by
  have hversion : scanVersion (versionKey ++ decimal 19) = some (19 : Int) :=
    scanVersion_decimal (by decide)
  rw [readHash, q.splitOn_front h]
  simp only [Phc.fields, ne_eq, not_true_eq_false, if_false, hversion, scanCosts_decimal, hs, hh,
    Option.bind_eq_bind, Option.bind_some]
  rfl

theorem readHash_text (q : Phc) {salt hash : List UInt8} (hs : Base64.decode q.salt = some salt)
    (hh : Base64.decode q.hash = some hash) :
    readHash q.text = some ⟨q.memory, q.time, q.parallelism, salt, hash⟩ :=
  readHash_front q List.not_mem_nil hs hh

/-! ## A hash as `hashPassword` writes it -/

theorem format_eq_text (q : Phc) :
    format 19 q.memory.toNat q.time.toNat q.parallelism.toNat q.salt q.hash = q.text := by
  simp [format, Phc.text, Phc.fields, List.intercalate, List.intersperse]

/-- The PHC string of a salt and a key, at the costs of this service. -/
def written (salt key : List UInt8) (h : key ≠ []) : Phc where
  memory := argonMemory
  time := argonTime
  parallelism := argonThreads
  salt := Base64.encode salt
  hash := Base64.encode key
  time_pos := by decide
  parallelism_pos := by decide
  salt_valid := Base64.valid_encode salt
  hash_valid := Base64.valid_encode key
  hash_ne := by
    intro hnil
    have hdec := Base64.decode_encode key
    rw [hnil, Base64.decode_nil] at hdec
    exact h (Option.some.inj hdec).symm

theorem idKey_argon (A : Argon2) (password : Text) (salt : List UInt8) :
    ∃ key, A.idKey (utf8 password) salt argonTime argonMemory argonThreads argonKeyLen = some key
      ∧ key.length = 32 :=
  A.derives (by decide) (by decide) (by decide) A.own

/-- Hashing never panics. -/
theorem hashPassword_isSome (A : Argon2) (salt : Vector UInt8 argonSaltLen) (password : Text) :
    (hashPassword A salt password).isSome := by
  obtain ⟨key, hkey, -⟩ := idKey_argon A password salt.toList
  rw [hashPassword, hkey]
  rfl

theorem verifyPassword_of_readHash {A : Argon2} {password encoded : Text} {h : Stored}
    (hr : readHash encoded = some h) :
    verifyPassword A password encoded
      = (recompute A password h).map (fun got => decide (got = h.want)) := by
  rw [verifyPassword, hr]

theorem verifyPassword_of_none {A : Argon2} {password encoded : Text}
    (hr : readHash encoded = none) : verifyPassword A password encoded = some false := by
  rw [verifyPassword, hr]

theorem verifyPassword_eq_true {A : Argon2} {password encoded : Text} :
    verifyPassword A password encoded = some true
      ↔ ∃ h, readHash encoded = some h ∧ recompute A password h = some h.want := by
  cases hr : readHash encoded with
  | none =>
    rw [verifyPassword_of_none hr]
    simp
  | some h =>
    rw [verifyPassword_of_readHash hr]
    simp

/-- What `hashPassword` made of a password is the PHC string of a key of that password. -/
theorem hashPassword_eq_some {A : Argon2} {salt : Vector UInt8 argonSaltLen}
    {password encoded : Text} (h : hashPassword A salt password = some encoded) :
    ∃ (key : List UInt8) (hne : key ≠ []), encoded = (written salt.toList key hne).text ∧
      recompute A password ⟨argonMemory, argonTime, argonThreads, salt.toList, key⟩ = some key := by
  obtain ⟨key, hkey, hlen⟩ := idKey_argon A password salt.toList
  have hne : key ≠ [] := by
    rintro rfl
    exact absurd hlen (by decide)
  rw [hashPassword, hkey] at h
  refine ⟨key, hne, ?_, ?_⟩
  · rw [← format_eq_text]
    exact (Option.some.inj h).symm
  · rw [recompute, hlen]
    exact hkey

/-- It verifies, and so does anything without a `$` in front of it. -/
theorem verifyPassword_front {A : Argon2} {salt : Vector UInt8 argonSaltLen}
    {password encoded front : Text} (h : hashPassword A salt password = some encoded)
    (hd : '$' ∉ front) : verifyPassword A password (front ++ encoded) = some true := by
  obtain ⟨key, hne, rfl, hkey⟩ := hashPassword_eq_some h
  exact verifyPassword_eq_true.mpr ⟨_, readHash_front (written salt.toList key hne) hd
    (Base64.decode_encode salt.toList) (Base64.decode_encode key), hkey⟩

theorem verifyPassword_hashPassword {A : Argon2} {salt : Vector UInt8 argonSaltLen}
    {password encoded : Text} (h : hashPassword A salt password = some encoded) :
    verifyPassword A password encoded = some true :=
  verifyPassword_front h List.not_mem_nil

/-- A PHC string begins with a `$`, so with anything in front it is none. -/
theorem not_exact_of_front {A : Argon2} {salt : Vector UInt8 argonSaltLen}
    {password encoded front : Text} (h : hashPassword A salt password = some encoded)
    (hne : front ≠ []) (hd : '$' ∉ front) : ¬ Exact A password (front ++ encoded) := by
  intro he
  obtain ⟨q, -, -, hq, -⟩ := he.sound (verifyPassword_front h hd)
  cases front with
  | nil => exact hne rfl
  | cons c front =>
    obtain rfl : c = '$' := (List.cons.inj hq).1
    exact hd List.mem_cons_self

/-- It is 97 characters long. -/
theorem hashPassword_length {A : Argon2} {salt : Vector UInt8 argonSaltLen}
    {password encoded : Text} (h : hashPassword A salt password = some encoded) :
    encoded.length = 97 := by
  obtain ⟨key, hkey, hlen⟩ := idKey_argon A password salt.toList
  rw [hashPassword, hkey] at h
  obtain rfl := (Option.some.inj h).symm
  have hcosts : (decimal version).length = 2 ∧ (decimal argonMemory.toNat).length = 5
      ∧ (decimal argonTime.toNat).length = 1 ∧ (decimal argonThreads.toNat).length = 1 := by
    decide
  simp only [format, List.length_append, List.length_cons, hcosts, Base64.length_encode, hlen,
    Vector.length_toList]
  rfl

theorem hashPassword_nul {A : Argon2} {salt : Vector UInt8 argonSaltLen}
    {password encoded : Text} (h : hashPassword A salt password = some encoded) :
    Char.ofNat 0 ∉ encoded := by
  obtain ⟨key, hkey, -⟩ := idKey_argon A password salt.toList
  rw [hashPassword, hkey] at h
  obtain rfl := (Option.some.inj h).symm
  have hdec (n : Nat) : Char.ofNat 0 ∉ decimal n := Py.notMem_toDigits (by decide) n
  have henc : ∀ bs, Char.ofNat 0 ∉ Base64.encode bs := by
    intro bs hc
    exact absurd ((Base64.valid_encode bs).alphabet _ hc) (by decide)
  have hfixed : Char.ofNat 0 ∉ argon2id ∧ Char.ofNat 0 ∉ versionKey ∧ Char.ofNat 0 ∉ memoryKey
      ∧ Char.ofNat 0 ∉ timeKey ∧ Char.ofNat 0 ∉ parallelismKey ∧ Char.ofNat 0 ≠ '$' := by
    decide
  simp only [format, List.mem_append, List.mem_cons, hdec, henc, hfixed, or_self,
    not_false_eq_true]

/-! ## Total and exact -/

theorem ofNat_length_eq_zero {want : List UInt8} :
    UInt32.ofNat want.length = 0 ↔ want.length % 2 ^ 32 = 0 := by
  rw [← UInt32.toNat_inj, UInt32.toNat_ofNat']
  rfl

theorem Workable.keyLen_pos {available : Nat} {h : Stored} (hw : Workable available h) :
    1 ≤ UInt32.ofNat h.want.length := by
  rw [UInt32.le_iff_toNat_le, UInt32.toNat_ofNat']
  exact Nat.one_le_iff_ne_zero.mpr hw.hash_ne

/-- The key derivation comes back exactly from what is workable: each of the four things it is
documented to fail at is one that `verifyPassword` does not look at. -/
theorem recompute_ne_none {A : Argon2} {password : Text} {h : Stored} :
    recompute A password h ≠ none ↔ Workable A.available h := by
  constructor
  · intro hne
    refine ⟨?_, ?_, ?_, ?_⟩
    · by_contra hlt
      exact hne (A.few (Or.inl (by simpa using hlt)))
    · by_contra hlt
      exact hne (A.few (Or.inr (by simpa using hlt)))
    · intro hzero
      apply hne
      rw [recompute, ofNat_length_eq_zero.mpr hzero]
      exact A.short
    · by_contra hlt
      exact hne (A.exhausts (Nat.lt_of_not_le hlt))
  · intro hw hnone
    have hkey : ∃ key, recompute A password h = some key ∧ _ :=
      A.derives hw.time_pos hw.parallelism_pos hw.keyLen_pos hw.fits
    obtain ⟨key, hkey, -⟩ := hkey
    rw [hkey] at hnone
    cases hnone

/-- A key is as long as its length says in 32 bits. -/
theorem recompute_length {A : Argon2} {password : Text} {h : Stored} {key : List UInt8}
    (hkey : recompute A password h = some key) : key.length < 2 ^ 32 := by
  have hw : Workable A.available h :=
    recompute_ne_none.mp (by rw [hkey]; exact Option.some_ne_none key)
  obtain ⟨key', hkey', hlen⟩ :=
    A.derives hw.time_pos hw.parallelism_pos hw.keyLen_pos hw.fits
  obtain rfl : key' = key := Option.some.inj (hkey'.symm.trans hkey)
  rw [hlen]
  exact UInt32.toNat_lt _

theorem Exact.workable {A : Argon2} {password encoded : Text} {h : Stored}
    (he : Exact A password encoded) (hr : readHash encoded = some h) :
    Workable A.available h := by
  apply recompute_ne_none.mp
  intro hnone
  apply he.returns
  rw [verifyPassword_of_readHash hr, hnone]
  rfl

theorem exact_of_wellStored {A : Argon2} {encoded : Text}
    (hs : WellStored A.available encoded) (password : Text) : Exact A password encoded := by
  refine ⟨?_, ?_, fun salt hs => verifyPassword_hashPassword hs⟩
  · cases hr : readHash encoded with
    | none =>
      rw [verifyPassword_of_none hr]
      exact Option.some_ne_none _
    | some h =>
      rw [verifyPassword_of_readHash hr, Ne, Option.map_eq_none_iff]
      exact recompute_ne_none.mpr (hs h hr).1
  · intro htrue
    obtain ⟨h, hr, hmatch⟩ := verifyPassword_eq_true.mp htrue
    obtain ⟨-, ⟨q, rfl⟩ | hlong⟩ := hs h hr
    · obtain ⟨salt, hsalt⟩ := Option.isSome_iff_exists.mp (Base64.decode_isSome q.salt_valid)
      obtain ⟨hash, hhash⟩ := Option.isSome_iff_exists.mp (Base64.decode_isSome q.hash_valid)
      obtain rfl := Option.some.inj (hr.symm.trans (readHash_text q hsalt hhash))
      exact ⟨q, salt, hash, rfl, hsalt, hhash, hmatch⟩
    · exact absurd (recompute_length hmatch) (Nat.not_lt_of_le hlong)

/-- What this service stores is well stored. -/
theorem wellStored_hashPassword {A : Argon2} {salt : Vector UInt8 argonSaltLen}
    {password encoded : Text} (h : hashPassword A salt password = some encoded) :
    WellStored A.available encoded := by
  obtain ⟨key, hne, rfl, hkey⟩ := hashPassword_eq_some h
  have hread := readHash_text (written salt.toList key hne) (Base64.decode_encode salt.toList)
    (Base64.decode_encode key)
  intro stored hr
  rw [← Option.some.inj (hread.symm.trans hr)]
  have hreturns : recompute A password ⟨argonMemory, argonTime, argonThreads, salt.toList, key⟩
      ≠ none := Option.ne_none_iff_exists'.mpr ⟨key, hkey⟩
  exact ⟨recompute_ne_none.mp hreturns, Or.inl ⟨written salt.toList key hne, rfl⟩⟩

/-- Where the answer is not false, exactness shows what the text is: a panic is not exact, and
a text that is accepted is a PHC string. -/
theorem Exact.wellStored {A : Argon2} {password encoded : Text} (he : Exact A password encoded)
    (hv : verifyPassword A password encoded ≠ some false) :
    WellStored A.available encoded := by
  intro h hr
  have htrue : verifyPassword A password encoded = some true := by
    obtain ⟨b, hb⟩ := Option.ne_none_iff_exists'.mp he.returns
    rw [hb] at hv ⊢
    cases b with
    | true => rfl
    | false => exact absurd rfl hv
  obtain ⟨q, -, -, hq, -⟩ := he.sound htrue
  exact ⟨he.workable hr, Or.inl ⟨q, hq⟩⟩

/-- A derivation that fails where `argon2.IDKey` does and whose keys of one length are all the
same. -/
def answering (available : Nat)
    (own : Argon2.blocks argonMemory argonThreads ≤ available) (key : List UInt8) : Argon2 where
  idKey _ _ time memory threads keyLen :=
    if time < 1 ∨ threads < 1 ∨ keyLen = 0 ∨ available < Argon2.blocks memory threads then none
    else if key.length = keyLen.toNat then some key
    else some (List.replicate keyLen.toNat 0)
  available := available
  own := own
  few := by
    intro _ _ time _ threads keyLen h
    exact if_pos (h.imp_right Or.inl)
  short := if_pos (Or.inr (Or.inr (Or.inl rfl)))
  exhausts := fun h => if_pos (Or.inr (Or.inr (Or.inr h)))
  derives := by
    intro _ _ time memory threads keyLen ht hp hk hm
    have hworks : ¬ (time < 1 ∨ threads < 1 ∨ keyLen = 0
        ∨ available < Argon2.blocks memory threads) := by
      rintro (h | h | rfl | h)
      · exact absurd ht (by simpa using h)
      · exact absurd hp (by simpa using h)
      · exact absurd hk (by decide)
      · exact absurd hm (Nat.not_le_of_lt h)
    rw [if_neg hworks]
    by_cases hlen : key.length = keyLen.toNat
    · exact ⟨key, if_pos hlen, hlen⟩
    · exact ⟨_, if_neg hlen, List.length_replicate⟩

theorem recompute_answering {available : Nat}
    (own : Argon2.blocks argonMemory argonThreads ≤ available) (password : Text) {h : Stored}
    (hw : Workable available h) (hlen : h.want.length < 2 ^ 32) :
    recompute (answering available own h.want) password h = some h.want := by
  have hworks : ¬ (h.timeCost < 1 ∨ h.parallelism < 1 ∨ UInt32.ofNat h.want.length = 0
      ∨ available < Argon2.blocks h.memory h.parallelism) := by
    rintro (hbad | hbad | hbad | hbad)
    · exact absurd hw.time_pos (by simpa using hbad)
    · exact absurd hw.parallelism_pos (by simpa using hbad)
    · exact hw.hash_ne (ofNat_length_eq_zero.mp hbad)
    · exact absurd hw.fits (Nat.not_le_of_lt hbad)
  have hkey : h.want.length = (UInt32.ofNat h.want.length).toNat := by
    rw [UInt32.toNat_ofNat', Nat.mod_eq_of_lt hlen]
  exact (if_neg hworks).trans (if_pos hkey)

/-- Verification is total and exact, whatever the password and the key derivation, where and
only where the stored text is well stored. With one derivation and one password it is exact
beyond that only where its answer is false.

That a text which is not well stored fails somewhere takes a derivation that gives the hash in
the text: nothing that is documented of `argon2.IDKey` tells such a hash from its keys. -/
theorem exact_iff (A : Argon2) (encoded : Text) :
    ((∀ B : Argon2, B.available = A.available → ∀ password, Exact B password encoded)
      ↔ WellStored A.available encoded)
    ∧ ∀ password, verifyPassword A password encoded ≠ some false →
        (Exact A password encoded ↔ WellStored A.available encoded) := by
  refine ⟨⟨?_, ?_⟩, fun password hv => ⟨fun he => he.wellStored hv, fun hs => ?_⟩⟩
  · intro hall h hr
    have hw : Workable A.available h := (hall A rfl []).workable hr
    refine ⟨hw, ?_⟩
    by_cases hlen : h.want.length < 2 ^ 32
    · have hmatch := recompute_answering A.own [] hw hlen
      have htrue := verifyPassword_eq_true.mpr ⟨h, hr, hmatch⟩
      obtain ⟨q, -, -, hq, -⟩ := (hall (answering A.available A.own h.want) rfl []).sound htrue
      exact Or.inl ⟨q, hq⟩
    · exact Or.inr (Nat.le_of_not_lt hlen)
  · intro hs B hB password
    exact exact_of_wellStored (hB ▸ hs) password
  · exact exact_of_wellStored hs password

/-- A derivation whose keys are all zeros, in a process of 1 GiB. -/
def zeroKeys : Argon2 := answering 1048576 (by decide) []

/-- A hash of this service is safe, and it is not with an `x` in front of it. -/
theorem exact_iff_prefixed : ∃ encoded, (∀ password, Exact zeroKeys password encoded)
    ∧ ¬ WellStored zeroKeys.available ('x' :: encoded) := by
  obtain ⟨encoded, hs⟩ := Option.isSome_iff_exists.mp
    (hashPassword_isSome zeroKeys (Vector.replicate 16 0) "x".toList)
  have hx : '$' ∉ ['x'] := by decide
  have hfront : verifyPassword zeroKeys "x".toList ('x' :: encoded) = some true :=
    verifyPassword_front hs hx
  refine ⟨encoded, (exact_iff zeroKeys encoded).1.mpr (wellStored_hashPassword hs) zeroKeys rfl,
    fun hw => ?_⟩
  have htrue : verifyPassword zeroKeys "x".toList ('x' :: encoded) ≠ some false := by
    rw [hfront]
    decide
  have hexact : Exact zeroKeys "x".toList ('x' :: encoded) :=
    ((exact_iff zeroKeys _).2 "x".toList htrue).mpr hw
  exact not_exact_of_front hs (List.cons_ne_nil _ _) hx hexact

def noRounds : Text := "$argon2id$v=19$m=65536,t=0,p=4$c2FsdA$aGFzaA".toList

/-- A stored hash of no rounds: verification panics. -/
theorem noRounds_panics : ¬ Exact zeroKeys "x".toList noRounds := by
  intro h
  apply h.returns
  have hread : readHash noRounds
      = some ⟨65536, 0, 4, [0x73, 0x61, 0x6c, 0x74], [0x68, 0x61, 0x73, 0x68]⟩ := by decide
  rw [verifyPassword_of_readHash hread]
  rfl

end TelegramCms.Passwords
