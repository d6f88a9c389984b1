import TelegramCms.Lib.Transition
import TelegramCms.Model.Credentials
import TelegramCms.Proof.Endpoints
import TelegramCms.Proof.Passwords

/-!
# The credential policy, over a history of requests

A name is to have 3 to 64 characters, and a password 8 to 128. `handleCreateAdmin` checks
the lower bounds in bytes and no upper bound, and the column cuts a name off at 64
characters; `handleUpdateAdmin` checks nothing. So the policy is kept by exactly the
histories in which the requests that are carried out keep to it of themselves.
-/

namespace TelegramCms

open Transition

/-- A password that an account can be logged in to with, once it has a hash of it. -/
def Usable (A : Argon2) (id : Nat) (password : Text) : Prop :=
  ∃ (salt : Vector UInt8 Passwords.argonSaltLen) (t : Admins) (username : Text) (admin : Admin),
    admin.id = id ∧ Passwords.hashPassword A salt password = some admin.passwordHash
      ∧ Go.handleLogin A t username password = some (.ok admin)

/-- Every account that was created has a name of 3 to 64 characters, and every password that
was set and can be used to log in has 8 to 128. -/
structure CredentialPolicy (A : Argon2) (h : Accounts) : Prop where
  usernames : ∀ a ∈ h.site.admins.rows, a.id ∈ h.created →
    3 ≤ a.username.length ∧ a.username.length ≤ 64
  passwords : ∀ x ∈ h.passwords, Usable A x.1 x.2 → 8 ≤ x.2.length ∧ x.2.length ≤ 128

/-- Another account has the Telegram user that a `PATCH` asks for. -/
def TgUserTaken (t : Admins) (id : Nat) (body : Text) : Prop :=
  ∃ fields u, decodePatchBody (decodeJSON body) = some fields
    ∧ Go.presentTgUserId fields = some (some (some u))
    ∧ ∃ a ∈ t.rows, a.id ≠ id ∧ a.tgUserId = some u

/-- Nothing stops the request, and the database takes what it writes. -/
def CarriedOut (A : Argon2) (h : Accounts) (r : CredentialRequest) : Prop :=
  match r.call with
  | .create =>
    ¬ Stops (r.api A) h.site r.body .createAdmin ∧ (varcharCol 64 (Go.sentUsername r.body)).isSome
  | .update id =>
    ¬ Stops (r.api A) h.site r.body (.updateAdmin id) ∧ ¬ TgUserTaken h.site.admins id r.body

/-- What the request sends keeps to the policy: characters are counted, and an empty password
is no use to anyone. -/
def Within (r : CredentialRequest) : Prop :=
  match r.call with
  | .create =>
    3 ≤ (Go.sentUsername r.body).length ∧ 8 ≤ (Go.sentPassword r.body).length
      ∧ (Go.sentPassword r.body).length ≤ 128
  | .update _ =>
    ∀ pw, Go.newPassword r.body = some pw → pw = [] ∨ 8 ≤ pw.length ∧ pw.length ≤ 128

/-! ## Logging in -/

theorem hashPassword_hashed (A : Argon2) (salt : Vector UInt8 Passwords.argonSaltLen)
    (password : Text) :
    Passwords.hashPassword A salt password = some (Passwords.hashed A salt password) := by
  obtain ⟨hash, h⟩ := Option.isSome_iff_exists.mp (Passwords.hashPassword_isSome A salt password)
  rw [Passwords.hashed, h]
  rfl

/-- The column is wide enough for a hash. -/
theorem varcharCol_hashed (A : Argon2) (salt : Vector UInt8 Passwords.argonSaltLen)
    (password : Text) :
    varcharCol 255 (Passwords.hashed A salt password)
      = some (Passwords.hashed A salt password) := by
  have h := hashPassword_hashed A salt password
  have hlen := Passwords.hashPassword_length h
  rw [varcharCol, textCol, if_neg (Passwords.hashPassword_nul h), Option.bind_some,
    if_pos (by omega)]

/-- The login of an account that has a hash of the password. -/
theorem handleLogin_of_hash {A : Argon2} (salt : Vector UInt8 Passwords.argonSaltLen)
    {t : Admins} {username password : Text} {admin : Admin}
    (hhash : Passwords.hashPassword A salt password = some admin.passwordHash)
    (hfind : t.rows.find? (fun a => a.username = username ∧ a.disabledAt = none) = some admin)
    (hu : username ≠ []) (hp : password ≠ []) :
    Go.handleLogin A t username password = some (.ok admin) := by
  rw [Go.handleLogin, if_neg (by simp [hu, hp]), hfind]
  dsimp only
  rw [Passwords.verifyPassword_hashPassword hhash]
  rfl

/-- Any password but the empty one will do. -/
theorem usable_iff {A : Argon2} {id : Nat} {password : Text} :
    Usable A id password ↔ password ≠ [] := by
  constructor
  · rintro ⟨salt, t, username, admin, -, -, h⟩ rfl
    rw [Go.handleLogin, if_pos (Or.inr rfl)] at h
    cases h
  · intro hp
    let salt : Vector UInt8 Passwords.argonSaltLen := Vector.replicate _ 0
    let admin : Admin :=
      { id := id, username := "a".toList, passwordHash := Passwords.hashed A salt password }
    have hhash := hashPassword_hashed A salt password
    refine ⟨salt, Table.empty.insert admin, admin.username, admin, rfl, hhash, ?_⟩
    have hfind : (Table.empty.insert admin : Admins).rows.find?
        (fun a => a.username = admin.username ∧ a.disabledAt = none) = some admin := by
      simp [Table.insert, Table.empty, admin]
    exact handleLogin_of_hash _ hhash hfind (by simp [admin]) hp

/-! ## Creating an account -/

/-- The name that goes into the column: what it cuts off comes after 64 characters. -/
theorem varcharCol_length {n : Nat} {s c : Text} (h : varcharCol n s = some c) :
    c.length = min n s.length := by
  rw [varcharCol, textCol] at h
  split at h
  · cases h
  · rw [Option.bind_some] at h
    split at h
    · rw [← Option.some.inj h]
      omega
    · split at h
      · rw [← Option.some.inj h, List.length_take]
      · cases h

/-- The row an `INSERT` of an account adds. -/
structure NewAccount (t : Admins) (username hash : Text) (a : Admin) : Prop where
  username : varcharCol 64 username = some a.username
  hash : varcharCol 255 hash = some a.passwordHash
  id : a.id = t.fresh
  enabled : a.disabledAt = none
  unique : ∀ b ∈ t.rows, b.username ≠ a.username

theorem createAdmin_eq_ok {t t' : Admins} {username hash : Text} {role : Role}
    {tgUserId : Option Int} (h : Go.createAdmin t username hash role tgUserId = .ok t') :
    ∃ a, NewAccount t username hash a ∧ t' = t.insert a := by
  unfold Go.createAdmin at h
  split at h
  · rename_i username' hash' hu hh
    split at h
    · cases h
    · rename_i htaken
      refine ⟨_, ⟨hu, hh, rfl, rfl, ?_⟩, (Except.ok.inj h).symm⟩
      intro b hb heq
      apply htaken
      exact Or.inl (List.any_eq_true.mpr ⟨b, hb, decide_eq_true heq⟩)
  · cases h

/-- What a `POST` that goes through leaves: one more account. -/
theorem handleCreateAdmin_eq_ok {env : ApiEnv} {s s' : Site} {body : Text}
    (h : Go.handleCreateAdmin env s body = .ok s') :
    ∃ a, NewAccount s.admins (Go.sentUsername body) (env.hashPassword (Go.sentPassword body)) a
      ∧ s' = { s with admins := s.admins.insert a } := by
  simp only [Go.handleCreateAdmin] at h
  split at h
  · cases h
  · split at h
    · cases h
    · split at h
      · cases h
      · rename_i hcreate
        obtain ⟨a, ha, rfl⟩ := createAdmin_eq_ok hcreate
        exact ⟨a, ha, (Except.ok.inj h).symm⟩

/-- A `POST` that does not go through is turned down, or the database cannot take it. -/
theorem handleCreateAdmin_eq_error {env : ApiEnv} {s : Site} {body : Text} {a : HttpAnswer}
    (h : Go.handleCreateAdmin env s body = .error a) :
    a.refused ∨ varcharCol 64 (Go.sentUsername body) = none
      ∨ varcharCol 255 (env.hashPassword (Go.sentPassword body)) = none := by
  simp only [Go.handleCreateAdmin] at h
  split at h
  · rw [← Except.error.inj h]
    exact Or.inl (by decide)
  · split at h
    · rw [← Except.error.inj h]
      exact Or.inl (by decide)
    · split at h
      · rename_i b hcreate
        obtain rfl := Except.error.inj h
        unfold Go.createAdmin at hcreate
        split at hcreate
        · split at hcreate
          · rw [← Except.error.inj hcreate]
            exact Or.inl (by decide)
          · cases hcreate
        -- the insert fails: a column cannot take its value
        · rename_i hcols
          refine Or.inr ?_
          cases hu : varcharCol 64 (Go.sentUsername body) with
          | none => exact Or.inl rfl
          | some u =>
            cases hh : varcharCol 255 (env.hashPassword (Go.sentPassword body)) with
            | none => exact Or.inr rfl
            | some hash => exact absurd hh (hcols u hash hu)
      · cases h

/-! ## Changing one -/

theorem update_nothing (t : Admins) (id : Nat) :
    t.update id ({} : AdminSet).apply ({} : AdminSet).apply_id = t := by
  have hid : (fun r : Admin => if r.id = id then ({} : AdminSet).apply r else r) = fun r => r := by
    funext r
    exact ite_self r
  cases t
  simp only [Table.update, hid, List.map_id']

theorem updateAdmin_of_get {req : AdminRequest} {t : Admins} {now : Time} {adm adm' : Admin}
    (hget : t.get req.adminId = some adm')
    (htaken : ¬ tgUserIdTaken t req.adminId (req.set adm now) = true) :
    (updateAdmin req t now adm).1
      = t.update req.adminId (req.set adm now).apply (req.set adm now).apply_id := by
  rw [updateAdmin, hget]
  dsimp only
  rw [if_neg htaken]

/-- What a `PATCH` that goes through leaves: the row as an `UPDATE` leaves it that sets the hash
of the password, if one was sent. -/
theorem handleUpdateAdmin_eq_ok {env : ApiEnv} {s s' : Site} {id : Nat} {body : Text}
    (h : Go.handleUpdateAdmin env s id body = .ok s') :
    ¬ TgUserTaken s.admins id body ∧ ∃ set : AdminSet,
      set.passwordHash = (Go.newPassword body).map env.hashPassword
      ∧ s' = { s with admins := s.admins.update id set.apply set.apply_id } := by
  simp only [Go.handleUpdateAdmin] at h
  split at h
  · cases h
  · rename_i adm hadm
    split at h
    · cases h
    · rename_i fields hfields
      split at h
      · cases h
      · rename_i pw hpw
        have hnew : Go.newPassword body = pw := by
          rw [Go.newPassword, hfields]
          dsimp only
          rw [hpw]
          rfl
        rw [hnew]
        split at h
        · cases h
        · split at h
          · cases h
          · split at h
            · cases h
            · split at h
              · cases h
              · split at h
                · cases h
                · rename_i tgUserId htg
                  have htg' : TgUserTaken s.admins id body → ∃ u, tgUserId = some (some u)
                      ∧ ∃ a ∈ s.admins.rows, a.id ≠ id ∧ a.tgUserId = some u := by
                    rintro ⟨fields', u, hf, hu, hrow⟩
                    obtain rfl := Option.some.inj (hfields.symm.trans hf)
                    exact ⟨u, Option.some.inj (htg.symm.trans hu), hrow⟩
                  split at h
                  · -- nothing to assign, so no password either
                    rename_i hempty
                    simp only [AdminRequest.empty, decide_eq_true_eq] at hempty
                    refine ⟨?_, {}, hempty.1.symm, ?_⟩
                    · intro ht
                      obtain ⟨u, rfl, -⟩ := htg' ht
                      exact absurd hempty.2.2.2 (by simp)
                    · rw [update_nothing]
                      exact (Except.ok.inj h).symm
                  · split at h
                    · cases h
                    · rename_i htaken
                      rw [updateAdmin_of_get hadm htaken] at h
                      refine ⟨?_, _, rfl, (Except.ok.inj h).symm⟩
                      intro ht
                      obtain ⟨u, rfl, hrow⟩ := htg' ht
                      apply htaken
                      simpa only [tgUserIdTaken, AdminRequest.set, List.any_eq_true,
                        decide_eq_true_eq] using hrow

/-- A `PATCH` that does not go through is turned down, or the Telegram user is another's. -/
theorem handleUpdateAdmin_eq_error {env : ApiEnv} {s : Site} {id : Nat} {body : Text}
    {a : HttpAnswer} (h : Go.handleUpdateAdmin env s id body = .error a) :
    a.refused ∨ TgUserTaken s.admins id body := by
  -- all but the last of the checks answer with an error of the client's
  have hclient : ∀ {status : Nat} {detail : String} {b : HttpAnswer}, 400 ≤ status ∧ status < 500 →
      (.error (.error status detail) : Except HttpAnswer Site) = .error b →
        b.refused ∨ TgUserTaken s.admins id body := by
    intro status detail b hs hb
    rw [← Except.error.inj hb]
    exact Or.inl hs
  simp only [Go.handleUpdateAdmin] at h
  split at h
  · exact hclient (by omega) h
  · split at h
    · exact hclient (by omega) h
    · rename_i fields hfields
      split at h
      · exact hclient (by omega) h
      · split at h
        · exact hclient (by omega) h
        · split at h
          · exact hclient (by omega) h
          · split at h
            · exact hclient (by omega) h
            · split at h
              · exact hclient (by omega) h
              · split at h
                · exact hclient (by omega) h
                · rename_i tgUserId htg
                  split at h
                  · cases h
                  · split at h
                    · rename_i htaken
                      -- the unique constraint of the table
                      refine Or.inr ⟨fields, ?_⟩
                      simp only [tgUserIdTaken, AdminRequest.set] at htaken
                      split at htaken
                      · simp only [List.any_eq_true, decide_eq_true_eq] at htaken
                        exact ⟨_, hfields, htg, htaken⟩
                      · cases htaken
                    · cases h

/-! ## One request -/

section Step

variable {A : Argon2} {h : Accounts} {r : CredentialRequest} {s' : Site} {id : Nat}

theorem create_ok_iff (hc : r.call = .create) :
    (∃ s', Go.handleCreateAdmin (r.api A) h.site r.body = .ok s') ↔ CarriedOut A h r := by
  rw [CarriedOut, hc]
  dsimp only
  rw [← createAdmin_handler_refused]
  constructor
  · rintro ⟨s', hs⟩
    obtain ⟨a, ha, -⟩ := handleCreateAdmin_eq_ok hs
    rw [hs, ha.username]
    exact ⟨refused_ok s', rfl⟩
  · rintro ⟨hnot, hu⟩
    cases hs : Go.handleCreateAdmin (r.api A) h.site r.body with
    | ok s' => exact ⟨s', rfl⟩
    | error a =>
      rcases handleCreateAdmin_eq_error hs with ha | hnone | hnone
      · exact absurd ⟨a, hs, ha⟩ hnot
      · rw [hnone] at hu
        cases hu
      · have hcol := varcharCol_hashed A r.salt (Go.sentPassword r.body)
        cases hcol.symm.trans hnone

theorem update_ok_iff (hc : r.call = .update id) :
    (∃ s', Go.handleUpdateAdmin (r.api A) h.site id r.body = .ok s') ↔ CarriedOut A h r := by
  rw [CarriedOut, hc]
  dsimp only
  rw [← updateAdmin_refused]
  constructor
  · rintro ⟨s', hs⟩
    refine ⟨?_, (handleUpdateAdmin_eq_ok hs).1⟩
    rw [hs]
    exact refused_ok s'
  · rintro ⟨hnot, htaken⟩
    cases hs : Go.handleUpdateAdmin (r.api A) h.site id r.body with
    | ok s' => exact ⟨s', rfl⟩
    | error a =>
      rcases handleUpdateAdmin_eq_error hs with ha | ht
      · exact absurd ⟨a, hs, ha⟩ hnot
      · exact absurd ht htaken

/-- A request that is not carried out leaves no trace. -/
theorem Accounts.serve_of_not_carriedOut (hn : ¬ CarriedOut A h r) : h.serve A r = h := by
  rw [Accounts.serve]
  cases hc : r.call with
  | create =>
    dsimp only
    cases hs : Go.handleCreateAdmin (r.api A) h.site r.body with
    | error a => rfl
    | ok s' => exact absurd ((create_ok_iff hc).mp ⟨s', hs⟩) hn
  | update id =>
    dsimp only
    cases hs : Go.handleUpdateAdmin (r.api A) h.site id r.body with
    | error a => rfl
    | ok s' => exact absurd ((update_ok_iff hc).mp ⟨s', hs⟩) hn

theorem Accounts.serve_create (hc : r.call = .create)
    (hs : Go.handleCreateAdmin (r.api A) h.site r.body = .ok s') :
    h.serve A r =
      { site := s'
        created := h.site.admins.fresh :: h.created
        passwords := (h.site.admins.fresh, Go.sentPassword r.body) :: h.passwords } := by
  rw [Accounts.serve, hc]
  dsimp only
  rw [hs]

theorem Accounts.serve_update (hc : r.call = .update id)
    (hs : Go.handleUpdateAdmin (r.api A) h.site id r.body = .ok s') :
    h.serve A r =
      { site := s'
        created := h.created
        passwords := (Go.newPassword r.body).toList.map (fun pw => (id, pw)) ++ h.passwords } := by
  rw [Accounts.serve, hc]
  dsimp only
  rw [hs]

/-- `handleCreateAdmin` counts bytes, so at least nothing is empty. -/
theorem sent_ne_nil (hc : r.call = .create) (hr : CarriedOut A h r) :
    Go.sentUsername r.body ≠ [] ∧ Go.sentPassword r.body ≠ [] := by
  rw [CarriedOut, hc] at hr
  have hshort : Go.byteLength [] < 3 ∧ Go.byteLength [] < 8 := by decide
  constructor
  · intro hnil
    apply hr.1
    refine Or.inr (Or.inl ?_)
    change Go.byteLength (Go.sentUsername r.body) < 3
    rw [hnil]
    exact hshort.1
  · intro hnil
    apply hr.1
    refine Or.inr (Or.inr (Or.inl ?_))
    change Go.byteLength (Go.sentPassword r.body) < 8
    rw [hnil]
    exact hshort.2

theorem Accounts.rows_insert {t : Admins} {a : Admin} (ha : a.id = t.fresh) :
    (t.insert a).rows = t.rows ++ [a] := by
  rw [Table.insert, dif_neg]
  rw [ha]
  intro hmem
  obtain ⟨b, hb, heq⟩ := List.mem_map.mp hmem
  exact absurd heq (Nat.ne_of_lt (Table.lt_fresh hb))

/-- A `POST` that is carried out keeps the policy exactly if what it sends does. -/
theorem policy_create (hp : CredentialPolicy A h) (hc : r.call = .create)
    (hr : CarriedOut A h r) : CredentialPolicy A (h.serve A r) ↔ Within r := by
  obtain ⟨s', hs⟩ := (create_ok_iff hc).mpr hr
  obtain ⟨a, ha, rfl⟩ := handleCreateAdmin_eq_ok hs
  have hne := (sent_ne_nil hc hr).2
  have hlen := varcharCol_length ha.username
  have hrows := Accounts.rows_insert ha.id
  rw [Accounts.serve_create hc hs, Within, hc]
  dsimp only
  constructor
  -- the new account is one of those the policy speaks of
  · intro hp'
    have hname := hp'.usernames a (by rw [hrows]; simp) (by rw [ha.id]; exact List.mem_cons_self)
    have hpw := hp'.passwords _ List.mem_cons_self (usable_iff.mpr hne)
    exact ⟨by omega, hpw⟩
  · rintro ⟨hname, hpw⟩
    refine ⟨?_, ?_⟩
    · intro b hb hcreated
      rw [hrows] at hb
      -- an account that was there has another id than the new one
      rcases List.mem_append.mp hb with hb | hb
      · rcases List.mem_cons.mp hcreated with heq | hold
        · exact absurd heq (Nat.ne_of_lt (Table.lt_fresh hb))
        · exact hp.usernames b hb hold
      · rw [List.mem_singleton.mp hb]
        omega
    · intro x hx
      rcases List.mem_cons.mp hx with rfl | hx
      · exact fun _ => hpw
      · exact hp.passwords x hx

/-- The account that a `POST` created can be logged in to with what the `POST` sent, unless
its name was cut off. -/
theorem handleLogin_created (hc : r.call = .create) (hr : CarriedOut A h r)
    (hlen : (Go.sentUsername r.body).length ≤ 64) :
    ∃ a, a.id = h.site.admins.fresh ∧
      Go.handleLogin A (h.serve A r).site.admins (Go.sentUsername r.body)
        (Go.sentPassword r.body) = some (.ok a) := by
  obtain ⟨s', hs⟩ := (create_ok_iff hc).mpr hr
  obtain ⟨a, ha, rfl⟩ := handleCreateAdmin_eq_ok hs
  -- a name of 64 characters at most is stored as it was sent
  have husername : a.username = Go.sentUsername r.body := by
    have hu := ha.username
    rw [varcharCol, textCol] at hu
    split at hu
    · cases hu
    · rw [Option.bind_some, if_pos hlen] at hu
      exact (Option.some.inj hu).symm
  have hhash : a.passwordHash = Passwords.hashed A r.salt (Go.sentPassword r.body) :=
    Option.some.inj (ha.hash.symm.trans (varcharCol_hashed A r.salt _))
  -- no other account has the name, so the login finds this one
  have hfind : (h.site.admins.insert a).rows.find?
      (fun b => b.username = Go.sentUsername r.body ∧ b.disabledAt = none) = some a := by
    rw [Accounts.rows_insert ha.id, List.find?_append, List.find?_eq_none.mpr, Option.none_or]
    · simp [husername, ha.enabled]
    · intro b hb
      simp [← husername, ha.unique b hb]
  refine ⟨a, ha.id, ?_⟩
  rw [Accounts.serve_create hc hs]
  refine handleLogin_of_hash r.salt ?_ hfind (sent_ne_nil hc hr).1 (sent_ne_nil hc hr).2
  rw [hhash]
  exact hashPassword_hashed A r.salt _

/-- A `PATCH` does so too, and changes no name. -/
theorem policy_update (hp : CredentialPolicy A h) (hc : r.call = .update id)
    (hr : CarriedOut A h r) : CredentialPolicy A (h.serve A r) ↔ Within r := by
  obtain ⟨s', hs⟩ := (update_ok_iff hc).mpr hr
  obtain ⟨-, set, -, rfl⟩ := handleUpdateAdmin_eq_ok hs
  rw [Accounts.serve_update hc hs, Within, hc]
  dsimp only
  constructor
  · intro hp' pw hpw
    by_cases hnil : pw = []
    · exact Or.inl hnil
    · refine Or.inr (hp'.passwords (id, pw) ?_ (usable_iff.mpr hnil))
      rw [hpw]
      exact List.mem_cons_self
  · intro hw
    refine ⟨?_, ?_⟩
    · intro b hb hcreated
      obtain ⟨a, ha, rfl⟩ := List.mem_map.mp hb
      split at hcreated
      · rename_i hid
        rw [if_pos hid]
        exact hp.usernames a ha hcreated
      · rename_i hid
        rw [if_neg hid]
        exact hp.usernames a ha hcreated
    · intro x hx husable
      rcases List.mem_append.mp hx with hx | hx
      · obtain ⟨pw, hpw, rfl⟩ := List.mem_map.mp hx
        exact (hw pw (Option.mem_toList.mp hpw)).resolve_left (usable_iff.mp husable)
      · exact hp.passwords x hx husable

theorem policy_serve (hp : CredentialPolicy A h) :
    CredentialPolicy A (h.serve A r) ↔ (CarriedOut A h r → Within r) := by
  by_cases hr : CarriedOut A h r
  · cases hc : r.call with
    | create => rw [policy_create hp hc hr, imp_iff_right hr]
    | update id => rw [policy_update hp hc hr, imp_iff_right hr]
  · rw [Accounts.serve_of_not_carriedOut hr]
    exact iff_of_true hp (fun h => absurd h hr)

end Step

/-! ## A history -/

/--
**The policy holds throughout a history exactly if every request that is carried out in it
keeps to the policy of itself.**

Each credential in the tables was set by one of the requests, and the history lists what each of
them set; so a request adds to what the policy speaks of what it has set itself, and no more
(`policy_serve`).
-/
theorem credentialPolicy_iff {A : Argon2} {site : Site} {tr : List (Accounts × CredentialRequest)}
    {h : Accounts} (ht : Trace (Accounts.step A) { site := site } tr h) :
    ((∀ x ∈ tr, CredentialPolicy A x.1) ∧ CredentialPolicy A h)
      ↔ AllSteps (fun h r => CarriedOut A h r → Within r) tr := by
  refine ht.forall_iff' ?_ ⟨?_, ?_⟩
  · intro h r h' hp hs
    obtain rfl := Option.some.inj hs
    exact policy_serve hp
  · intro a _ hcreated
    cases hcreated
  · intro x hx
    cases hx

/-- A site with one account. -/
def oneAccount : Accounts where
  site := {
    admins := Table.empty.insert {
      id := 1, username := "root".toList, passwordHash := [], role := .superAdmin } }

/-- A `PATCH` of that account. -/
def patchOne (body : String) : CredentialRequest where
  env := plainApi
  salt := Vector.replicate _ 0
  call := .update 1
  body := body.toList

theorem Accounts.step_eq (A : Argon2) (h : Accounts) (r : CredentialRequest) :
    h.step A r = some (h.serve A r) := rfl

theorem credentialPolicy_iff_patch :
    ((∀ x ∈ [(oneAccount, patchOne "\x7b\"password\":\"long enough\"\x7d")],
        CredentialPolicy Passwords.zeroKeys x.1)
      ∧ CredentialPolicy Passwords.zeroKeys
        (oneAccount.serve Passwords.zeroKeys (patchOne "\x7b\"password\":\"long enough\"\x7d")))
      ↔ AllSteps (fun h r => CarriedOut Passwords.zeroKeys h r → Within r)
        [(oneAccount, patchOne "\x7b\"password\":\"long enough\"\x7d")] :=
  credentialPolicy_iff (.snoc (.nil _) (Accounts.step_eq _ _ _))

/-- A `PATCH` sets a password of one letter. -/
theorem one_letter_password :
    ¬ ∀ (A : Argon2) (site : Site) (tr : List (Accounts × CredentialRequest)) (h : Accounts),
      Trace (Accounts.step A) { site := site } tr h → CredentialPolicy A h := by
  intro hall
  have hp : CredentialPolicy Passwords.zeroKeys
      (oneAccount.serve Passwords.zeroKeys (patchOne "\x7b\"password\":\"x\"\x7d")) :=
    hall _ oneAccount.site _ _ (.snoc (.nil _) (Accounts.step_eq _ _ _))
  have hset : (oneAccount.serve Passwords.zeroKeys
      (patchOne "\x7b\"password\":\"x\"\x7d")).passwords = [(1, "x".toList)] := by
    decide +kernel
  have hx := hp.passwords (1, "x".toList) (by rw [hset]; exact List.mem_cons_self)
    (usable_iff.mpr (by decide))
  exact absurd hx.1 (by decide)

end TelegramCms
