import VeStorage.Credentials.Store

namespace VeStorage.Credentials
open Lib
open ADrive.Share (CliError)
open Lib.Crash (ensure ensure_eq_ok bind_eq_ok seq_eq_ok pure_eq_ok)

section Values

variable {crypto : Crypto} {key : crypto.Key} {nonce nonce' : crypto.Nonce} {value : Option Text}

-- No value looks like a ciphertext.
def Clear (value : Option Text) : Prop := ∀ text ∈ value, isEncrypted text = false

def Sealed (value : Option Text) : Prop := ∀ text ∈ value, isEncrypted text = true

theorem isEncrypted_encrypt (text : Text) :
    isEncrypted (encryptWithKey crypto key nonce text) = true :=
  decide_eq_true (List.prefix_append _ _)

theorem decrypt_encrypt (text : Text) :
    decryptWithKey crypto key (encryptWithKey crypto key nonce text) = .ok text := by
  rw [decryptWithKey, encryptWithKey, stripPrefix_append]
  exact crypto.decode_encode key nonce text

theorem sealed_encryptedValue : Sealed (encryptedValue crypto key nonce value) := by
  intro text htext
  obtain ⟨plaintext, -, rfl⟩ := Option.map_eq_some_iff.mp htext
  split
  next h => exact h
  next => exact isEncrypted_encrypt plaintext

theorem encryptedValue_of_sealed (h : Sealed value) :
    encryptedValue crypto key nonce value = value := by
  cases value with
  | none => rfl
  | some text => rw [encryptedValue, Option.map_some, if_pos (h text rfl)]

theorem encryptedValue_of_clear (h : Clear value) :
    encryptedValue crypto key nonce value = value.map (encryptWithKey crypto key nonce) := by
  cases value with
  | none => rfl
  | some text =>
    have htext : ¬ isEncrypted text = true := by simp [h text rfl]
    rw [encryptedValue, Option.map_some, if_neg htext, Option.map_some]

theorem decryptedValue_of_clear (h : Clear value) : decryptedValue crypto key value = .ok value := by
  cases value with
  | none => rfl
  | some text =>
    have htext : ¬ isEncrypted text = true := by simp [h text rfl]
    rw [decryptedValue, if_neg htext]

-- A value that already looks encrypted is kept, any other is encrypted and decrypted again.
theorem decryptedValue_encryptedValue : decryptedValue crypto key
    (encryptedValue crypto key nonce value) = decryptedValue crypto key value := by
  cases value with
  | none => rfl
  | some text =>
    cases htext : isEncrypted text with
    | true => rw [encryptedValue, Option.map_some, if_pos htext]
    | false =>
      have hclear : Clear (some text) := fun other ht => Option.some.inj ht ▸ htext
      rw [encryptedValue_of_clear hclear, decryptedValue_of_clear hclear, Option.map_some,
        decryptedValue, if_pos (isEncrypted_encrypt text), decrypt_encrypt]
      rfl

end Values

section Groups

variable {crypto : Crypto} {key : crypto.Key}

structure StoredAkskCredentials.Clear (c : StoredAkskCredentials) : Prop where
  accessKeyId : Credentials.Clear c.accessKeyId
  secretAccessKey : Credentials.Clear c.secretAccessKey
  securityToken : Credentials.Clear c.securityToken

structure StoredOAuthCredentials.Clear (c : StoredOAuthCredentials) : Prop where
  accessToken : Credentials.Clear c.accessToken
  refreshToken : Credentials.Clear c.refreshToken

theorem clear_none : Clear none := nofun

theorem any_isEncrypted_eq_false {value : Option Text} :
    value.any isEncrypted = false ↔ Clear value := by
  cases value <;> simp [Clear]

-- The shortcuts past the key return what decryption would.
theorem decryptedAksk_eq (c : StoredAkskCredentials) : decryptedAksk crypto key c = do
    let accessKeyId ← decryptedValue crypto key c.accessKeyId
    let secretAccessKey ← decryptedValue crypto key c.secretAccessKey
    let securityToken ← decryptedValue crypto key c.securityToken
    return ⟨accessKeyId, secretAccessKey, securityToken⟩ := by
  have hclear : c.Clear → (do
      let accessKeyId ← decryptedValue crypto key c.accessKeyId
      let secretAccessKey ← decryptedValue crypto key c.secretAccessKey
      let securityToken ← decryptedValue crypto key c.securityToken
      return ⟨accessKeyId, secretAccessKey, securityToken⟩ :
        Except CliError StoredAkskCredentials) = .ok c := by
    intro h
    rw [decryptedValue_of_clear h.accessKeyId, decryptedValue_of_clear h.secretAccessKey,
      decryptedValue_of_clear h.securityToken]
    rfl
  rw [decryptedAksk]
  split
  next hempty =>
    obtain ⟨accessKeyId, secretAccessKey, securityToken⟩ := c
    simp only [StoredAkskCredentials.isEmpty, Bool.and_eq_true, Option.isNone_iff_eq_none] at hempty
    obtain ⟨⟨rfl, rfl⟩, rfl⟩ := hempty
    rfl
  next =>
    split
    next hplain =>
      simp only [akskRequiresDecryption, List.any_cons, List.any_nil, Bool.or_false,
        Bool.or_eq_false_iff, any_isEncrypted_eq_false] at hplain
      exact (hclear ⟨hplain.1, hplain.2.1, hplain.2.2⟩).symm
    next => rfl

theorem decryptOauth_eq (c : StoredOAuthCredentials) : decryptOauth crypto key c = do
    let accessToken ← decryptedValue crypto key c.accessToken
    let refreshToken ← decryptedValue crypto key c.refreshToken
    return { c with accessToken := accessToken, refreshToken := refreshToken } := by
  rw [decryptOauth]
  split
  next hempty =>
    obtain ⟨accessToken, refreshToken⟩ := c
    simp only [StoredOAuthCredentials.isEmpty, Bool.and_eq_true,
      Option.isNone_iff_eq_none] at hempty
    obtain ⟨rfl, rfl⟩ := hempty
    rfl
  next =>
    split
    next hplain =>
      simp only [oauthRequiresDecryption, List.any_cons, List.any_nil, Bool.or_false,
        Bool.or_eq_false_iff, any_isEncrypted_eq_false] at hplain
      rw [decryptedValue_of_clear hplain.1, decryptedValue_of_clear hplain.2]
      rfl
    next => rfl

theorem decryptedAksk_encryptAksk {nonce : AkskField → crypto.Nonce} {c : StoredAkskCredentials}
    (h : c.Clear) : decryptedAksk crypto key (encryptAksk crypto key nonce c) = .ok c := by
  rw [decryptedAksk_eq, encryptAksk, decryptedValue_encryptedValue, decryptedValue_encryptedValue,
    decryptedValue_encryptedValue, decryptedValue_of_clear h.accessKeyId,
    decryptedValue_of_clear h.secretAccessKey, decryptedValue_of_clear h.securityToken]
  rfl

theorem decryptOauth_encryptOauth {nonce : Slot → crypto.Nonce} {c : StoredOAuthCredentials} :
    decryptOauth crypto key (encryptOauth crypto key nonce c) = decryptOauth crypto key c := by
  rw [decryptOauth_eq, decryptOauth_eq, encryptOauth, decryptedValue_encryptedValue,
    decryptedValue_encryptedValue]

theorem decryptOauth_of_clear {c : StoredOAuthCredentials} (h : c.Clear) :
    decryptOauth crypto key c = .ok c := by
  rw [decryptOauth_eq, decryptedValue_of_clear h.accessToken, decryptedValue_of_clear h.refreshToken]
  rfl

def StoredOAuthCredentials.persisted (c : StoredOAuthCredentials) : StoredOAuthCredentials :=
  { c with legacyClientId := none }

theorem decryptOauth_persisted (c : StoredOAuthCredentials) : decryptOauth crypto key c.persisted =
    (decryptOauth crypto key c).map StoredOAuthCredentials.persisted := by
  rw [decryptOauth_eq, decryptOauth_eq]
  change (decryptedValue crypto key c.accessToken >>= fun _ => _) = Except.map _
    (decryptedValue crypto key c.accessToken >>= fun _ => _)
  cases decryptedValue crypto key c.accessToken with
  | error err => rfl
  | ok accessToken =>
    change (decryptedValue crypto key c.refreshToken >>= fun _ => _) = Except.map _
      (decryptedValue crypto key c.refreshToken >>= fun _ => _)
    cases decryptedValue crypto key c.refreshToken <;> rfl

theorem encryptAksk_twice (nonce nonce' : AkskField → crypto.Nonce) (c : StoredAkskCredentials) :
    encryptAksk crypto key nonce' (encryptAksk crypto key nonce c) =
      encryptAksk crypto key nonce c := by
  simp only [encryptAksk, encryptedValue_of_sealed sealed_encryptedValue]

end Groups

namespace CredentialsFile

variable {crypto : Crypto} {key : crypto.Key} {nonces nonces' : Nonces crypto}
  {f : CredentialsFile} {name : Text} {surface : CredentialSection}

def surfaceAksk (f : CredentialsFile) (name : Text) (surface : CredentialSection) :
    StoredAkskCredentials := (f.profile name).surfaceAksk surface

structure Clear (f : CredentialsFile) : Prop where
  aksk : ∀ name surface, (f.surfaceAksk name surface).Clear
  oauth : ∀ name, (f.oauth name).Clear

-- The shared values under those of one surface, where it inherits them.
def overlaid (f : CredentialsFile) (name : Text) (surface : CredentialSection) :
    StoredAkskCredentials :=
  (if surface = .tos ∨ surface = .veTos then f.surfaceAksk name .shared else {}).merge
    (f.surfaceAksk name surface)

theorem effectiveAksk_eq : f.effectiveAksk crypto key name surface = do
    let shared ← if surface = .tos ∨ surface = .veTos
      then decryptedAksk crypto key (f.surfaceAksk name .shared) else .ok {}
    let specific ← decryptedAksk crypto key (f.surfaceAksk name surface)
    return shared.merge specific := by
  rw [effectiveAksk, surfaceAksk, surfaceAksk, profile]
  cases f.profiles name with
  | none => cases surface <;> rfl
  | some profile => rfl

def saved (crypto : Crypto) (key : crypto.Key) (nonces : Nonces crypto) (f : CredentialsFile) :
    CredentialsFile := (f.encryptInPlace crypto key nonces).persisted

theorem saved_profiles : (f.saved crypto key nonces).profiles name =
    (f.profiles name).map fun profile =>
      (encryptProfile crypto key (nonces name) profile).persisted :=
  Option.map_map ..

theorem saved_profile : (f.saved crypto key nonces).profile name =
    (encryptProfile crypto key (nonces name) (f.profile name)).persisted := by
  rw [profile, profile, saved_profiles]
  cases f.profiles name <;> rfl

theorem saved_surfaceAksk : (f.saved crypto key nonces).surfaceAksk name surface =
    encryptAksk crypto key (fun field => nonces name (.aksk surface field))
      (f.surfaceAksk name surface) := by
  rw [surfaceAksk, surfaceAksk, saved_profile]
  generalize f.profile name = profile
  obtain ⟨sharedAksk, tos, veTos, adrive⟩ := profile
  cases surface with
  | shared => rfl
  | tos => cases tos <;> rfl
  | veTos => cases veTos <;> rfl
  | adrive => cases adrive <;> rfl

theorem saved_oauth : (f.saved crypto key nonces).oauth name =
    { encryptOauth crypto key (nonces name) (f.oauth name) with legacyClientId := none } := by
  rw [oauth, oauth, saved_profiles]
  rcases f.profiles name with - | ⟨sharedAksk, tos, veTos, - | ⟨aksk, - | oauth⟩⟩ <;> rfl

theorem effectiveAksk_saved (h : f.Clear) :
    (f.saved crypto key nonces).effectiveAksk crypto key name surface =
      .ok (f.overlaid name surface) := by
  rw [effectiveAksk_eq, saved_surfaceAksk, saved_surfaceAksk,
    decryptedAksk_encryptAksk (h.aksk name .shared), decryptedAksk_encryptAksk (h.aksk name surface),
    overlaid]
  split <;> rfl

-- A save keeps what every group decrypts to, but for the legacy client id.
theorem adriveOauth_saved : (f.saved crypto key nonces).adriveOauth crypto key name =
    (f.adriveOauth crypto key name).map StoredOAuthCredentials.persisted := by
  rw [adriveOauth, adriveOauth, saved_oauth, ← decryptOauth_persisted]
  exact decryptOauth_encryptOauth (c := (f.oauth name).persisted)

theorem adriveOauth_of_clear (h : (f.oauth name).Clear) :
    f.adriveOauth crypto key name = .ok (f.oauth name) := decryptOauth_of_clear h

theorem encryptProfile_twice (nonce nonce' : Slot → crypto.Nonce) (profile : CredentialProfile) :
    (encryptProfile crypto key nonce'
      (encryptProfile crypto key nonce profile).persisted).persisted =
        (encryptProfile crypto key nonce profile).persisted := by
  obtain ⟨sharedAksk, tos, veTos, adrive⟩ := profile
  simp only [encryptProfile, CredentialProfile.persisted, encryptAdrive, encryptOauth,
    Option.map_map, Function.comp_def, encryptAksk_twice,
    encryptedValue_of_sealed sealed_encryptedValue]

-- What is encrypted once stays as it is.
theorem saved_twice :
    (f.saved crypto key nonces).saved crypto key nonces' = f.saved crypto key nonces := by
  refine congrArg (CredentialsFile.mk f.schemaVersion) (funext fun name => ?_)
  change ((f.saved crypto key nonces).saved crypto key nonces').profiles name =
    (f.saved crypto key nonces).profiles name
  rw [saved_profiles, saved_profiles, Option.map_map]
  exact congrArg (fun g => (f.profiles name).map g) (funext fun profile =>
    encryptProfile_twice (nonces name) (nonces' name) profile)

theorem saved_persisted : (f.saved crypto key nonces).persisted = f.saved crypto key nonces := by
  refine congrArg (CredentialsFile.mk f.schemaVersion) (funext fun name => ?_)
  change ((f.saved crypto key nonces).profiles name).map CredentialProfile.persisted =
    (f.saved crypto key nonces).profiles name
  rw [saved_profiles]
  rcases f.profiles name with - | ⟨sharedAksk, tos, veTos, - | ⟨aksk, - | oauth⟩⟩ <;> rfl

end CredentialsFile

end VeStorage.Credentials
