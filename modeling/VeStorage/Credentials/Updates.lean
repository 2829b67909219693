import VeStorage.Credentials.RoundTrip

namespace VeStorage.Credentials
open Lib
open ADrive.Share (CliError)
open Lib.Crash (ensure ensure_eq_ok bind_eq_ok seq_eq_ok pure_eq_ok)

inductive Update where
  | setAksk (name : Text) (surface : CredentialSection) (field value : Text)
  | setOauth (name : Text) (credentials : StoredOAuthCredentials)
  | clearOauth (name : Text)

namespace CredentialsFile

def update (f : CredentialsFile) : Update → CredentialsFile
  | .setAksk name surface field value => (f.setAkskField name surface field value).1
  | .setOauth name credentials => (f.setAdriveOauth name credentials).1
  | .clearOauth name => f.clearAdriveOauth name

def build (updates : List Update) : CredentialsFile := updates.foldl update {}

end CredentialsFile

namespace Update

def profile : Update → Text
  | setAksk name _ _ _ | setOauth name _ | clearOauth name => name

-- What an update sets in one section of one profile, and in its OAuth group.
def aksk (name : Text) (surface : CredentialSection) (c : StoredAkskCredentials) :
    Update → StoredAkskCredentials
  | setAksk other surface' field value =>
      if other = name ∧ surface' = surface ∧ name ≠ reserved
      then (c.setField field value).toOption.getD c else c
  | setOauth _ _ | clearOauth _ => c

def oauth (name : Text) (c : StoredOAuthCredentials) : Update → StoredOAuthCredentials
  | setAksk _ _ _ _ => c
  | setOauth other credentials => if other = name ∧ name ≠ reserved then credentials else c
  | clearOauth other => if other = name then {} else c

def Clear : Update → Prop
  | setAksk _ _ _ value => isEncrypted value = false
  | setOauth _ credentials => credentials.Clear
  | clearOauth _ => True

end Update

def lastAksk (updates : List Update) (name : Text) (surface : CredentialSection) :
    StoredAkskCredentials :=
  updates.foldl (fun c update => update.aksk name surface c) {}

def lastOauth (updates : List Update) (name : Text) : StoredOAuthCredentials :=
  updates.foldl (fun c update => update.oauth name c) {}

-- The shared values that were set under those of the surface, where it inherits them.
def lastOverlaid (updates : List Update) (name : Text) (surface : CredentialSection) :
    StoredAkskCredentials :=
  (if surface = .tos ∨ surface = .veTos then lastAksk updates name .shared else {}).merge
    (lastAksk updates name surface)

theorem validateProfileName_eq {name : Text} :
    validateProfileName name = .ok () ↔ name ≠ reserved := ensure_eq_ok

theorem setField_clear {c : StoredAkskCredentials} {field value : Text} (h : c.Clear)
    (hv : isEncrypted value = false) : ((c.setField field value).toOption.getD c).Clear := by
  have hvalue : Clear (some value) := fun text ht => Option.some.inj ht ▸ hv
  rw [StoredAkskCredentials.setField]
  split
  next => exact ⟨hvalue, h.secretAccessKey, h.securityToken⟩
  next =>
    split
    next => exact ⟨h.accessKeyId, hvalue, h.securityToken⟩
    next =>
      split
      next => exact ⟨h.accessKeyId, h.secretAccessKey, hvalue⟩
      next => exact h

namespace CredentialsFile

variable {f : CredentialsFile} {name : Text} {surface : CredentialSection}

theorem profile_setProfile (other : Text) (profile : CredentialProfile) :
    (f.setProfile other profile).profile name = if name = other then profile else f.profile name := by
  simp only [CredentialsFile.profile, setProfile]
  split <;> rfl

theorem profile_clearAdriveOauth (other : Text) : (f.clearAdriveOauth other).profile name =
    if name = other then
      { f.profile name with
        adrive := (f.profile name).adrive.map fun adrive => { adrive with oauth := none } }
    else f.profile name := by
  simp only [profile, clearAdriveOauth]
  cases f.profiles name with
  | none => split <;> rfl
  | some profile => split <;> rfl

theorem oauth_eq :
    f.oauth name = ((f.profile name).adrive.bind AdriveCredentials.oauth).getD {} := by
  rw [oauth, profile]
  cases f.profiles name <;> rfl

theorem surfaceAksk_withAksk (profile : CredentialProfile) (c : StoredAkskCredentials)
    (surface' : CredentialSection) : (profile.withAksk c surface').surfaceAksk surface =
      if surface' = surface then c else profile.surfaceAksk surface := by
  cases surface' <;> cases surface <;> rfl

theorem oauth_withAksk (profile : CredentialProfile) (c : StoredAkskCredentials) :
    ((profile.withAksk c surface).adrive.bind AdriveCredentials.oauth).getD {} =
      (profile.adrive.bind AdriveCredentials.oauth).getD {} := by
  cases surface with
  | adrive => obtain ⟨sharedAksk, tos, veTos, - | adrive⟩ := profile <;> rfl
  | shared | tos | veTos => rfl

theorem update_surfaceAksk (update : Update) : (f.update update).surfaceAksk name surface =
    update.aksk name surface (f.surfaceAksk name surface) := by
  cases update with
  | setAksk other surface' field value =>
    simp only [CredentialsFile.update, setAkskField, validateProfileName, ensure, Update.aksk,
      surfaceAksk]
    by_cases hreserved : other ≠ reserved
    · rw [if_pos hreserved]
      dsimp only
      rw [profile_setProfile]
      by_cases hname : name = other
      · subst hname
        rw [if_pos rfl, surfaceAksk_withAksk]
        by_cases hsurface : surface' = surface
        · subst hsurface
          rw [if_pos rfl, if_pos ⟨rfl, rfl, hreserved⟩]
        · rw [if_neg hsurface, if_neg fun h => hsurface h.2.1]
      · rw [if_neg hname, if_neg fun h => hname h.1.symm]
    · have hnot : ¬ (other = name ∧ surface' = surface ∧ name ≠ reserved) := fun h =>
        hreserved (h.1 ▸ h.2.2)
      rw [if_neg hreserved, if_neg hnot]
  | setOauth other credentials =>
    simp only [CredentialsFile.update, setAdriveOauth, validateProfileName, ensure, Update.aksk,
      surfaceAksk]
    by_cases hreserved : other ≠ reserved
    · rw [if_pos hreserved]
      dsimp only
      rw [profile_setProfile]
      split
      next hname =>
        subst hname
        obtain ⟨sharedAksk, tos, veTos, - | adrive⟩ := f.profile name <;> cases surface <;> rfl
      next => rfl
    · rw [if_neg hreserved]
  | clearOauth other =>
    simp only [CredentialsFile.update, Update.aksk, surfaceAksk]
    rw [profile_clearAdriveOauth]
    split
    next =>
      obtain ⟨sharedAksk, tos, veTos, - | adrive⟩ := f.profile name <;> cases surface <;> rfl
    next => rfl

theorem update_oauth (update : Update) :
    (f.update update).oauth name = update.oauth name (f.oauth name) := by
  rw [oauth_eq, oauth_eq]
  cases update with
  | setAksk other surface' field value =>
    simp only [CredentialsFile.update, setAkskField, validateProfileName, ensure, Update.oauth]
    by_cases hreserved : other ≠ reserved
    · rw [if_pos hreserved]
      dsimp only
      rw [profile_setProfile]
      split
      next hname =>
        subst hname
        exact oauth_withAksk _ _
      next => rfl
    · rw [if_neg hreserved]
  | setOauth other credentials =>
    simp only [CredentialsFile.update, setAdriveOauth, validateProfileName, ensure, Update.oauth]
    by_cases hreserved : other ≠ reserved
    · rw [if_pos hreserved]
      dsimp only
      rw [profile_setProfile]
      by_cases hname : name = other
      · subst hname
        rw [if_pos rfl, if_pos ⟨rfl, hreserved⟩]
        rfl
      · rw [if_neg hname, if_neg fun h => hname h.1.symm]
    · have hnot : ¬ (other = name ∧ name ≠ reserved) := fun h => hreserved (h.1 ▸ h.2)
      rw [if_neg hreserved, if_neg hnot]
  | clearOauth other =>
    simp only [CredentialsFile.update, Update.oauth]
    rw [profile_clearAdriveOauth]
    by_cases hname : name = other
    · subst hname
      rw [if_pos rfl, if_pos rfl]
      cases (f.profile name).adrive <;> rfl
    · rw [if_neg hname, if_neg fun h => hname h.symm]

theorem update_clear (update : Update) (h : f.Clear) (hu : update.Clear) : (f.update update).Clear where
  aksk name surface := by
    rw [update_surfaceAksk]
    cases update with
    | setAksk other surface' field value =>
      rw [Update.aksk]
      split
      next => exact setField_clear (h.aksk name surface) hu
      next => exact h.aksk name surface
    | setOauth | clearOauth => exact h.aksk name surface
  oauth name := by
    rw [update_oauth]
    cases update with
    | setAksk => exact h.oauth name
    | setOauth other credentials =>
      rw [Update.oauth]
      split
      next => exact hu
      next => exact h.oauth name
    | clearOauth other =>
      rw [Update.oauth]
      split
      next => exact ⟨clear_none, clear_none⟩
      next => exact h.oauth name

structure Valid (f : CredentialsFile) : Prop where
  version : f.schemaVersion = 1
  unreserved : f.profiles reserved = none

theorem validate_eq_ok : f.validate = .ok () ↔ f.Valid := by
  rw [validate, seq_eq_ok, ensure_eq_ok, ensure_eq_ok, Option.isNone_iff_eq_none]
  exact ⟨fun h => ⟨h.1, h.2⟩, fun h => ⟨h.version, h.unreserved⟩⟩

theorem Valid.setProfile (h : f.Valid) (hn : name ≠ reserved) (profile : CredentialProfile) :
    (f.setProfile name profile).Valid :=
  ⟨h.version, (if_neg (Ne.symm hn)).trans h.unreserved⟩

theorem update_valid (update : Update) (h : f.Valid) : (f.update update).Valid := by
  cases update with
  | setAksk other surface' field value =>
    rw [CredentialsFile.update, setAkskField]
    split
    next => exact h
    next heq => exact h.setProfile (validateProfileName_eq.mp heq) _
  | setOauth other credentials =>
    rw [CredentialsFile.update, setAdriveOauth]
    split
    next => exact h
    next heq => exact h.setProfile (validateProfileName_eq.mp heq) _
  | clearOauth other =>
    refine ⟨h.version, ?_⟩
    rw [CredentialsFile.update, clearAdriveOauth]
    exact Option.map_eq_none_iff.mpr h.unreserved

theorem saved_valid {crypto : Crypto} {key : crypto.Key} {nonces : Nonces crypto} (h : f.Valid) :
    (f.saved crypto key nonces).Valid := by
  refine ⟨h.version, ?_⟩
  rw [saved_profiles, h.unreserved]
  rfl

-- What holds of the empty store, and is kept by each update, holds of every store built.
theorem build_induction {P : List Update → CredentialsFile → Prop} (h0 : P [] {})
    (hstep : ∀ updates f update, P updates f → P (updates ++ [update]) (f.update update))
    (updates : List Update) : P updates (build updates) := by
  induction updates using List.reverseRecOn with
  | nil => exact h0
  | append_singleton updates update ih =>
    rw [build, List.foldl_append]
    exact hstep updates (build updates) update ih

structure Built (updates : List Update) (f : CredentialsFile) : Prop where
  valid : f.Valid
  clear : (∀ update ∈ updates, update.Clear) → f.Clear
  aksk : ∀ name surface, f.surfaceAksk name surface = lastAksk updates name surface
  oauth : ∀ name, f.oauth name = lastOauth updates name

theorem empty_built : Built [] {} where
  valid := ⟨rfl, rfl⟩
  clear _ := by
    refine ⟨fun name surface => ?_, fun name => ⟨clear_none, clear_none⟩⟩
    cases surface <;> exact ⟨clear_none, clear_none, clear_none⟩
  aksk _ surface := by cases surface <;> rfl
  oauth _ := rfl

theorem build_built (updates : List Update) : Built updates (build updates) := by
  refine build_induction empty_built (fun updates f update h => ?_) updates
  refine ⟨update_valid update h.valid, fun hclear => ?_, fun name surface => ?_, fun name => ?_⟩
  · obtain ⟨hall, hlast⟩ := List.forall_mem_append.mp hclear
    exact update_clear update (h.clear hall) (hlast update List.mem_cons_self)
  · rw [update_surfaceAksk, h.aksk, lastAksk, lastAksk, List.foldl_append]
    rfl
  · rw [update_oauth, h.oauth, lastOauth, lastOauth, List.foldl_append]
    rfl

theorem Built.overlaid {updates : List Update} (h : Built updates f) :
    f.overlaid name surface = lastOverlaid updates name surface := by
  rw [CredentialsFile.overlaid, lastOverlaid, h.aksk, h.aksk]

def value (f : CredentialsFile) (name : Text) : Slot → Option Text
  | .aksk surface .accessKeyId => (f.surfaceAksk name surface).accessKeyId
  | .aksk surface .secretAccessKey => (f.surfaceAksk name surface).secretAccessKey
  | .aksk surface .securityToken => (f.surfaceAksk name surface).securityToken
  | .accessToken => (f.oauth name).accessToken
  | .refreshToken => (f.oauth name).refreshToken

theorem value_clear (h : f.Clear) (slot : Slot) : Credentials.Clear (f.value name slot) := by
  cases slot with
  | aksk surface field =>
    cases field with
    | accessKeyId => exact (h.aksk name surface).accessKeyId
    | secretAccessKey => exact (h.aksk name surface).secretAccessKey
    | securityToken => exact (h.aksk name surface).securityToken
  | accessToken => exact (h.oauth name).accessToken
  | refreshToken => exact (h.oauth name).refreshToken

section Saved

variable {crypto : Crypto} {key : crypto.Key} {nonces : Nonces crypto} {toml : Toml}

theorem saved_value (slot : Slot) : (f.saved crypto key nonces).value name slot =
    encryptedValue crypto key (nonces name slot) (f.value name slot) := by
  cases slot with
  | aksk surface field =>
    cases field <;> simp only [value, saved_surfaceAksk, encryptAksk]
  | accessToken | refreshToken => simp only [value, saved_oauth, encryptOauth]

theorem saveToPath_eq (h : f.Valid) :
    f.saveToPath crypto key toml nonces = .ok (toml.print (f.saved crypto key nonces)) := by
  rw [saveToPath, validate_eq_ok.mpr h]
  rfl

theorem loadFrom_saved (h : f.Valid) :
    loadFrom toml (some (toml.print (f.saved crypto key nonces))) = .ok (f.saved crypto key nonces) := by
  rw [loadFrom, toml.parse_print _ saved_persisted]
  dsimp only
  rw [validate_eq_ok.mpr (saved_valid h)]
  rfl

end Saved

end CredentialsFile

def lastValue (updates : List Update) (name : Text) : Slot → Option Text
  | .aksk surface .accessKeyId => (lastAksk updates name surface).accessKeyId
  | .aksk surface .secretAccessKey => (lastAksk updates name surface).secretAccessKey
  | .aksk surface .securityToken => (lastAksk updates name surface).securityToken
  | .accessToken => (lastOauth updates name).accessToken
  | .refreshToken => (lastOauth updates name).refreshToken

def Update.Sets (secret : Text) : Update → Prop
  | setAksk _ _ _ value => value = secret
  | setOauth _ credentials =>
      credentials.accessToken = some secret ∨ credentials.refreshToken = some secret
  | clearOauth _ => False

theorem Update.Clear.not_encrypted {update : Update} {secret : Text} (h : update.Clear)
    (hs : update.Sets secret) : isEncrypted secret = false := by
  cases update with
  | setAksk name surface field value => exact hs ▸ h
  | setOauth name credentials =>
    rcases hs with hs | hs
    · exact h.accessToken secret hs
    · exact h.refreshToken secret hs
  | clearOauth name => exact hs.elim

theorem CredentialsFile.Built.value {updates : List Update} {f : CredentialsFile}
    (h : Built updates f) (name : Text) (slot : Slot) :
    f.value name slot = lastValue updates name slot := by
  cases slot with
  | aksk surface field => cases field <;> simp only [CredentialsFile.value, lastValue, h.aksk]
  | accessToken | refreshToken => simp only [CredentialsFile.value, lastValue, h.oauth]

open CredentialsFile in
theorem credentials_round_trip (crypto : Crypto) (key : crypto.Key) (toml : Toml)
    (nonces nonces' : Nonces crypto) (updates : List Update)
    (hclear : ∀ update ∈ updates, update.Clear) :
    ∃ content loaded, (build updates).saveToPath crypto key toml nonces = .ok content ∧
      loadFrom toml (some content) = .ok loaded ∧
      (∀ name surface, loaded.effectiveAksk crypto key name surface =
        .ok (lastOverlaid updates name surface)) ∧
      (∀ name, loaded.adriveOauth crypto key name =
        .ok { lastOauth updates name with legacyClientId := none }) ∧
      loaded.saveToPath crypto key toml nonces' = .ok content ∧
      (∀ name slot, loaded.value name slot =
        (lastValue updates name slot).map (encryptWithKey crypto key (nonces name slot))) ∧
      ∀ name slot text, loaded.value name slot = some text →
        ∀ update ∈ updates, ¬ update.Sets text := by
  have hbuilt := build_built updates
  have hc := hbuilt.clear hclear
  refine ⟨_, _, saveToPath_eq hbuilt.valid, loadFrom_saved hbuilt.valid, fun name surface => ?_,
    fun name => ?_, ?_, fun name slot => ?_, fun name slot text htext update hu hsets => ?_⟩
  · rw [effectiveAksk_saved hc, hbuilt.overlaid]
  · rw [adriveOauth_saved, adriveOauth_of_clear (hc.oauth name), hbuilt.oauth]
    rfl
  · rw [saveToPath_eq (saved_valid hbuilt.valid), saved_twice]
  · rw [saved_value, encryptedValue_of_clear (value_clear hc slot), hbuilt.value]
  · rw [saved_value] at htext
    have hsealed := sealed_encryptedValue text htext
    rw [(hclear update hu).not_encrypted hsets] at hsealed
    cases hsealed

section Example

def sampleCrypto : Crypto where
  Key := Unit
  Nonce := Unit
  encode _ _ text := 'x' :: text
  decode _ body := match body with
    | 'x' :: text => .ok text
    | _ => .error (.validation "Invalid base64 ciphertext")
  decode_encode _ _ _ := rfl

def sampleToml : Toml where
  Document := CredentialsFile
  print f := f
  parse := some
  parse_print _ _ := rfl

def sampleUpdates : List Update :=
  [.setAksk "default".toList .shared "access_key_id".toList "AKSHARED".toList,
    .setAksk "default".toList .tos "secret_access_key".toList "secret".toList,
    .setOauth "default".toList { accessToken := some "access".toList },
    .clearOauth "other".toList]

theorem sample_updates_round_trip : ∃ content loaded,
    (CredentialsFile.build sampleUpdates).saveToPath sampleCrypto () sampleToml (fun _ _ => ()) =
      .ok content ∧ CredentialsFile.loadFrom sampleToml (some content) = .ok loaded ∧
    loaded.effectiveAksk sampleCrypto () "default".toList .tos =
      .ok ⟨some "AKSHARED".toList, some "secret".toList, none⟩ := by
  have hclear : ∀ update ∈ sampleUpdates, update.Clear := by
    intro update hu
    simp only [sampleUpdates, List.mem_cons, List.not_mem_nil, or_false] at hu
    rcases hu with rfl | rfl | rfl | rfl
    · rfl
    · rfl
    · exact ⟨fun text ht => Option.some.inj ht ▸ rfl, nofun⟩
    · trivial
  obtain ⟨content, loaded, hsave, hload, haksk, -⟩ := credentials_round_trip sampleCrypto ()
    sampleToml (fun _ _ => ()) (fun _ _ => ()) sampleUpdates hclear
  exact ⟨content, loaded, hsave, hload, haksk "default".toList .tos⟩

-- A value that looks encrypted is kept as it is and cannot be read back; a legacy client id is
-- not kept.
theorem unkept_values :
    let prefixed := [Update.setAksk "default".toList .tos "access_key_id".toList "ENC:plain".toList]
    let legacy := [Update.setOauth "default".toList
      { accessToken := some "access".toList, legacyClientId := some "client".toList }]
    (∃ content loaded,
      (CredentialsFile.build prefixed).saveToPath sampleCrypto () sampleToml (fun _ _ => ()) =
        .ok content ∧ CredentialsFile.loadFrom sampleToml (some content) = .ok loaded ∧
      loaded.value "default".toList (.aksk .tos .accessKeyId) = some "ENC:plain".toList ∧
      loaded.effectiveAksk sampleCrypto () "default".toList .tos ≠
        .ok (lastOverlaid prefixed "default".toList .tos)) ∧
    ∃ content loaded,
      (CredentialsFile.build legacy).saveToPath sampleCrypto () sampleToml (fun _ _ => ()) =
        .ok content ∧ CredentialsFile.loadFrom sampleToml (some content) = .ok loaded ∧
      loaded.adriveOauth sampleCrypto () "default".toList ≠
        .ok (lastOauth legacy "default".toList) := by
  refine ⟨⟨_, _, rfl, rfl, rfl, by decide⟩, ⟨_, _, rfl, rfl, by decide⟩⟩

end Example

end VeStorage.Credentials
