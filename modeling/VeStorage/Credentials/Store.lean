import VeStorage.ADrive.Share.Journal

namespace VeStorage.Credentials
open Lib
open ADrive.Share (CliError)
open Lib.Crash (ensure ensure_eq_ok bind_eq_ok seq_eq_ok pure_eq_ok)

inductive CredentialSection where
  | shared
  | tos
  | veTos
  | adrive
deriving DecidableEq

structure StoredAkskCredentials where
  accessKeyId : Option Text := none
  secretAccessKey : Option Text := none
  securityToken : Option Text := none
deriving DecidableEq

namespace StoredAkskCredentials

def merge (c other : StoredAkskCredentials) : StoredAkskCredentials where
  accessKeyId := other.accessKeyId.or c.accessKeyId
  secretAccessKey := other.secretAccessKey.or c.secretAccessKey
  securityToken := other.securityToken.or c.securityToken

def isEmpty (c : StoredAkskCredentials) : Bool :=
  c.accessKeyId.isNone && c.secretAccessKey.isNone && c.securityToken.isNone

def setField (c : StoredAkskCredentials) (field value : Text) :
    Except CliError StoredAkskCredentials :=
  if field = "access_key_id".toList then .ok { c with accessKeyId := some value }
  else if field = "secret_access_key".toList then .ok { c with secretAccessKey := some value }
  else if field = "security_token".toList then .ok { c with securityToken := some value }
  else .error (.validation ("unsupported credential field '" ++ String.ofList field ++ "'"))

end StoredAkskCredentials

structure StoredOAuthCredentials where
  accessToken : Option Text := none
  refreshToken : Option Text := none
  expiresAt : Option Text := none
  tokenType : Option Text := none
  scope : List Text := []
  legacyClientId : Option Text := none
  instanceId : Option Text := none
  userId : Option Text := none
  authEndpoint : Option Text := none
deriving DecidableEq

def StoredOAuthCredentials.isEmpty (c : StoredOAuthCredentials) : Bool :=
  c.accessToken.isNone && c.refreshToken.isNone

structure AdriveCredentials where
  aksk : StoredAkskCredentials := {}
  oauth : Option StoredOAuthCredentials := none
deriving DecidableEq

structure CredentialProfile where
  sharedAksk : StoredAkskCredentials := {}
  tos : Option StoredAkskCredentials := none
  veTos : Option StoredAkskCredentials := none
  adrive : Option AdriveCredentials := none
deriving DecidableEq

def CredentialProfile.surfaceAksk (profile : CredentialProfile) :
    CredentialSection → StoredAkskCredentials
  | .shared => profile.sharedAksk
  | .tos => profile.tos.getD {}
  | .veTos => profile.veTos.getD {}
  | .adrive => (profile.adrive.map AdriveCredentials.aksk).getD {}

def CredentialProfile.withAksk (profile : CredentialProfile) (c : StoredAkskCredentials) :
    CredentialSection → CredentialProfile
  | .shared => { profile with sharedAksk := c }
  | .tos => { profile with tos := some c }
  | .veTos => { profile with veTos := some c }
  | .adrive => { profile with adrive := some { profile.adrive.getD {} with aksk := c } }

structure CredentialsFile where
  schemaVersion : Nat := 1
  profiles : Text → Option CredentialProfile := fun _ => none

-- AES-GCM with the base64 of a nonce and its ciphertext.
structure Crypto where
  Key : Type
  Nonce : Type
  encode : Key → Nonce → Text → Text
  decode : Key → Text → Except CliError Text
  decode_encode : ∀ key nonce text, decode key (encode key nonce text) = .ok text

def encPrefix : Text := "ENC:".toList

def isEncrypted (value : Text) : Bool := decide (encPrefix <+: value)

section Encryption

variable (crypto : Crypto) (key : crypto.Key)

def encryptWithKey (nonce : crypto.Nonce) (plaintext : Text) : Text :=
  encPrefix ++ crypto.encode key nonce plaintext

def decryptWithKey (ciphertext : Text) : Except CliError Text :=
  match stripPrefix encPrefix ciphertext with
  | none => .error (.validation "value is not ENC:-prefixed")
  | some body => crypto.decode key body

def encryptedValue (nonce : crypto.Nonce) (value : Option Text) : Option Text :=
  value.map fun plaintext =>
    if isEncrypted plaintext = true then plaintext else encryptWithKey crypto key nonce plaintext

def decryptedValue : Option Text → Except CliError (Option Text)
  | none => .ok none
  | some value =>
      if isEncrypted value = true then (decryptWithKey crypto key value).map some
      else .ok (some value)

inductive AkskField where
  | accessKeyId
  | secretAccessKey
  | securityToken
deriving DecidableEq

inductive Slot where
  | aksk (surface : CredentialSection) (field : AkskField)
  | accessToken
  | refreshToken
deriving DecidableEq

-- A fresh nonce for each value that a save encrypts.
abbrev Nonces (crypto : Crypto) := Text → Slot → crypto.Nonce

def encryptAksk (nonce : AkskField → crypto.Nonce) (c : StoredAkskCredentials) :
    StoredAkskCredentials where
  accessKeyId := encryptedValue crypto key (nonce .accessKeyId) c.accessKeyId
  secretAccessKey := encryptedValue crypto key (nonce .secretAccessKey) c.secretAccessKey
  securityToken := encryptedValue crypto key (nonce .securityToken) c.securityToken

def encryptOauth (nonce : Slot → crypto.Nonce) (c : StoredOAuthCredentials) :
    StoredOAuthCredentials :=
  { c with
    accessToken := encryptedValue crypto key (nonce .accessToken) c.accessToken
    refreshToken := encryptedValue crypto key (nonce .refreshToken) c.refreshToken }

def encryptAdrive (nonce : Slot → crypto.Nonce) (c : AdriveCredentials) : AdriveCredentials where
  aksk := encryptAksk crypto key (fun field => nonce (.aksk .adrive field)) c.aksk
  oauth := c.oauth.map (encryptOauth crypto key nonce)

def encryptProfile (nonce : Slot → crypto.Nonce) (profile : CredentialProfile) :
    CredentialProfile where
  sharedAksk := encryptAksk crypto key (fun field => nonce (.aksk .shared field)) profile.sharedAksk
  tos := profile.tos.map (encryptAksk crypto key fun field => nonce (.aksk .tos field))
  veTos := profile.veTos.map (encryptAksk crypto key fun field => nonce (.aksk .veTos field))
  adrive := profile.adrive.map (encryptAdrive crypto key nonce)

def akskRequiresDecryption (c : StoredAkskCredentials) : Bool :=
  [c.accessKeyId, c.secretAccessKey, c.securityToken].any fun value => value.any isEncrypted

def oauthRequiresDecryption (c : StoredOAuthCredentials) : Bool :=
  [c.accessToken, c.refreshToken].any fun value => value.any isEncrypted

def decryptedAksk (c : StoredAkskCredentials) : Except CliError StoredAkskCredentials :=
  if c.isEmpty = true then .ok c
  else if akskRequiresDecryption c = false then .ok c
  else do
    let accessKeyId ← decryptedValue crypto key c.accessKeyId
    let secretAccessKey ← decryptedValue crypto key c.secretAccessKey
    let securityToken ← decryptedValue crypto key c.securityToken
    return ⟨accessKeyId, secretAccessKey, securityToken⟩

def decryptOauth (c : StoredOAuthCredentials) : Except CliError StoredOAuthCredentials :=
  if c.isEmpty = true then .ok c
  else if oauthRequiresDecryption c = false then .ok c
  else do
    let accessToken ← decryptedValue crypto key c.accessToken
    let refreshToken ← decryptedValue crypto key c.refreshToken
    return { c with accessToken := accessToken, refreshToken := refreshToken }

end Encryption

def reserved : Text := "schema_version".toList

def validateProfileName (name : Text) : Except CliError Unit :=
  ensure (name ≠ reserved)
    (.validation "'schema_version' is reserved and cannot be used as a credentials profile")

namespace CredentialsFile

variable (crypto : Crypto) (key : crypto.Key)

def profile (f : CredentialsFile) (name : Text) : CredentialProfile := (f.profiles name).getD {}

def setProfile (f : CredentialsFile) (name : Text) (profile : CredentialProfile) :
    CredentialsFile :=
  { f with profiles := fun other => if other = name then some profile else f.profiles other }

-- A field that does not exist still leaves its profile and section behind.
def setAkskField (f : CredentialsFile) (name : Text) (surface : CredentialSection)
    (field value : Text) : CredentialsFile × Except CliError Unit :=
  match validateProfileName name with
  | .error err => (f, .error err)
  | .ok _ =>
    let profile := f.profile name
    let c := profile.surfaceAksk surface
    let result := c.setField field value
    (f.setProfile name (profile.withAksk (result.toOption.getD c) surface), result.map fun _ => ())

def setAdriveOauth (f : CredentialsFile) (name : Text) (credentials : StoredOAuthCredentials) :
    CredentialsFile × Except CliError Unit :=
  match validateProfileName name with
  | .error err => (f, .error err)
  | .ok _ =>
    let profile := f.profile name
    let adrive := { profile.adrive.getD {} with oauth := some credentials }
    (f.setProfile name { profile with adrive := some adrive }, .ok ())

def clearAdriveOauth (f : CredentialsFile) (name : Text) : CredentialsFile where
  schemaVersion := f.schemaVersion
  profiles other := (f.profiles other).map fun profile =>
    if other = name then
      { profile with adrive := profile.adrive.map fun adrive => { adrive with oauth := none } }
    else profile

def effectiveAksk (f : CredentialsFile) (name : Text) (surface : CredentialSection) :
    Except CliError StoredAkskCredentials :=
  match f.profiles name with
  | none => .ok {}
  | some profile => do
    let shared ← if surface = .tos ∨ surface = .veTos
      then decryptedAksk crypto key profile.sharedAksk else .ok {}
    let specific ← decryptedAksk crypto key (profile.surfaceAksk surface)
    return shared.merge specific

def oauth (f : CredentialsFile) (name : Text) : StoredOAuthCredentials :=
  (((f.profiles name).bind CredentialProfile.adrive).bind AdriveCredentials.oauth).getD {}

def adriveOauth (f : CredentialsFile) (name : Text) : Except CliError StoredOAuthCredentials :=
  decryptOauth crypto key (f.oauth name)

def validate (f : CredentialsFile) : Except CliError Unit := do
  ensure (f.schemaVersion = 1)
    (.validation ("unsupported credentials schema_version " ++ toString f.schemaVersion ++
      "; expected 1"))
  ensure ((f.profiles reserved).isNone = true)
    (.validation "'schema_version' is reserved and cannot be used as a credentials profile")

def encryptInPlace (nonces : Nonces crypto) (f : CredentialsFile) : CredentialsFile :=
  { f with profiles := fun name => (f.profiles name).map (encryptProfile crypto key (nonces name)) }

end CredentialsFile

-- What a profile keeps on disk: `legacy_client_id` is read but never written.
def CredentialProfile.persisted (profile : CredentialProfile) : CredentialProfile :=
  { profile with adrive := profile.adrive.map fun adrive =>
      { adrive with oauth := adrive.oauth.map fun oauth => { oauth with legacyClientId := none } } }

def CredentialsFile.persisted (f : CredentialsFile) : CredentialsFile :=
  { f with profiles := fun name => (f.profiles name).map CredentialProfile.persisted }

structure Toml where
  Document : Type
  print : CredentialsFile → Document
  parse : Document → Option CredentialsFile
  parse_print : ∀ f, f.persisted = f → parse (print f) = some f

variable (crypto : Crypto) (key : crypto.Key) (toml : Toml)

def CredentialsFile.saveToPath (nonces : Nonces crypto) (f : CredentialsFile) :
    Except CliError toml.Document := do
  f.validate
  return toml.print (f.encryptInPlace crypto key nonces).persisted

def CredentialsFile.loadFrom : Option toml.Document → Except CliError CredentialsFile
  | none => .ok {}
  | some content =>
    match toml.parse content with
    | none => .error (.validation
        "Failed to parse credentials file; validate its TOML syntax and schema")
    | some store => do
      store.validate
      return store

end VeStorage.Credentials
