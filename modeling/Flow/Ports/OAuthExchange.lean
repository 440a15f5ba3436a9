import Flow.Verified.Run
import Flow.Verified.Table

/-!
# Exchange of OAuth grants

A client exchanges an authorization code, and then one refresh token after the other,
for an access token and the next refresh token.  A refresh token is consumed by its
exchange.  For some time after that it can be presented again, by a client that lost
the answer: while the next refresh token is unused, the client gets a new access token
and that same refresh token once more.  The next token is kept for this in a replay
record that only the old token opens.

The tables are keyed by hashes of the secrets, taken to be free of collisions, so here
a row is keyed by the text that was hashed: a generated secret, or the text that names
the replay record of another one.

`previous` and `chain` are not in the program: which refresh token a token was
exchanged for, and with what its chain began.
-/

namespace Flow.Ports.OAuth

open List Option Flow.Verified Run Table

/-! ## Tables -/

inductive Secret where
  | generated (n : Nat)
  /-- The text that names the replay record of a token. -/
  | replayOf (token : Secret)
deriving DecidableEq, Repr

/-- The id of a family: one from earlier, or the one derived from the token and
the key of an exchange. -/
inductive FamilyID where
  | named (id : String)
  | derived (token : Secret) (keyID : String)
deriving DecidableEq, Repr

inductive Actor where
  | user
  | app
deriving DecidableEq, Repr

inductive GrantType where
  | authorizationCode
  | refreshToken
  | clientCredentials
deriving DecidableEq, Repr

structure OAuthRefreshGrant where
  actor : Actor := .user
  installerID : String := ""
  clientID : String := ""
  workspaceKey : String := ""
  userID : String := ""
  scopes : List String := []
  authorizationID : String := ""
  expiresAt : Nat := 0
  clientAuthRequired : Bool := false
  familyID : Option FamilyID := none
deriving DecidableEq, Repr

/-- A code is a grant with what its exchange is checked against.  A refresh
grant that is decoded as a code has neither. -/
structure OAuthAuthorizationCode where
  grant : OAuthRefreshGrant
  redirectURI : String := ""
  codeChallenge : String := ""
deriving DecidableEq, Repr

structure CodeRow where
  code : Secret
  data : OAuthAuthorizationCode
  expiresAt : Nat
  usedAt : Option Nat := none
deriving DecidableEq, Repr

/-- With what a chain of refresh tokens began: the exchange of a code, or a
token that was already stored. -/
inductive Chain where
  | code (code : Secret)
  | token (token : Secret)
deriving DecidableEq, Repr

inductive TokenData where
  | grant (grant : OAuthRefreshGrant) (previous : Option Secret) (chain : Chain)
  /-- A replay record with the token that it seals. -/
  | replay (successor : Secret)
deriving DecidableEq, Repr

/-- A row of `oauth_refresh_tokens`; `revokedAt` is set when the token is
consumed as well. -/
structure TokenRow where
  key : Secret
  data : TokenData
  expiresAt : Nat
  revokedAt : Option Nat := none
deriving DecidableEq, Repr

/-- A replay record has none of the members of a grant. -/
def TokenData.decode : TokenData → OAuthRefreshGrant
  | .grant value _ _ => value
  | .replay _ => {}

def TokenData.previous : TokenData → Option Secret
  | .grant _ token _ => token
  | .replay _ => none

def TokenData.chain : TokenData → Option Chain
  | .grant _ _ root => some root
  | .replay _ => none

structure APIKey where
  id : String
  workspaceKey : String
  subjectID : String
  issuedByUserID : String
  actor : Actor
  grantType : GrantType
  scopes : List String
  oauthClientID : String
  authorizationID : String
  refreshFamilyID : Option FamilyID
  expiresAt : Option Nat
  revokedAt : Option Nat := none
  chain : Option Chain := none
deriving DecidableEq, Repr

def APIKey.usable (now : Nat) (key : APIKey) : Bool :=
  key.revokedAt.isNone && key.expiresAt.all fun time => now < time

structure OAuthAuthorization where
  workspaceKey : String
  id : String
  clientID : String
  userID : String
  scopes : List String
  revokedAt : Option Nat := none
deriving DecidableEq, Repr

structure ApplicationInstallation where
  workspaceKey : String
  userID : String
  active : Bool
  scopes : List String
deriving DecidableEq, Repr

structure Store where
  now : Nat
  workspaces : List String
  /-- The active memberships: workspace and user. -/
  memberships : List (String × String)
  authorizations : List OAuthAuthorization
  installations : List ApplicationInstallation
  codes : List CodeRow
  tokens : List TokenRow
  keys : List APIKey

/-! ## The exchange -/

/-- How long a consumed token may be presented again, in nanoseconds. -/
def oauthRefreshReplayGrace : Nat := 30 * 60 * 1000000000

/-- How long a refresh token lasts, in nanoseconds. -/
def refreshLifetime : Nat := 30 * 24 * 60 * 60 * 1000000000

/-- A request to the token endpoint. The server generates the next refresh token, the id and the
expiry of the new key; `approved` is the policy of the workspace. -/
structure Request where
  kind : GrantType
  token : Secret
  clientID : String
  refreshToken : Nat
  keyID : String
  keyExpiresAt : Option Nat
  validateCode : Option (OAuthAuthorizationCode → Bool)
  approved : String → List String → Bool

structure Response where
  refreshToken : Secret
  keyID : String
  familyID : FamilyID
deriving DecidableEq, Repr

/-- What is stored for the presented secret. -/
structure Presented where
  code : OAuthAuthorizationCode
  expiresAt : Nat
  usedAt : Option Nat
  chain : Option Chain
deriving DecidableEq, Repr

def Presented.grant (presented : Presented) : OAuthRefreshGrant := presented.code.grant

def Store.present (s : Store) (r : Request) : Option Presented :=
  match r.kind with
  | .authorizationCode => (lookup CodeRow.code s.codes r.token).map fun row =>
    ⟨row.data, row.expiresAt, row.usedAt, some (.code r.token)⟩
  | .refreshToken => (lookup TokenRow.key s.tokens r.token).map fun row =>
    ⟨{ grant := row.data.decode }, row.expiresAt, row.revokedAt, row.data.chain⟩
  | .clientCredentials => none

def OAuthAuthorization.covers (authorization : OAuthAuthorization) (grant : OAuthRefreshGrant) :
    Bool :=
  authorization.revokedAt.isNone && authorization.clientID == grant.clientID &&
    authorization.userID == grant.userID &&
    grant.scopes.all fun scope => authorization.scopes.contains scope

def ApplicationInstallation.covers (installation : ApplicationInstallation)
    (grant : OAuthRefreshGrant) : Bool :=
  installation.active && grant.scopes.all fun scope => installation.scopes.contains scope

/-- The checks of an exchange that do not ask whether the secret was used.  They
are all refused alike, so their order is not kept. -/
def Store.admits (s : Store) (r : Request) (presented : Presented) : Bool :=
  let grant := presented.grant
  s.workspaces.contains grant.workspaceKey &&
    s.memberships.contains (grant.workspaceKey, grant.userID) &&
    decide (s.now < presented.expiresAt) &&
    grant.clientID != "" && grant.clientID == r.clientID &&
    (match r.validateCode with
      | none => r.kind != .authorizationCode
      | some validate => validate presented.code) &&
    ((s.authorizations.find? fun authorization =>
      authorization.workspaceKey = grant.workspaceKey ∧
        authorization.id = grant.authorizationID).any fun authorization =>
          authorization.covers grant) &&
    r.approved grant.clientID grant.scopes &&
    (grant.actor != .app || (s.installations.find? fun installation =>
      installation.workspaceKey = grant.workspaceKey ∧
        installation.userID = grant.userID).any fun installation => installation.covers grant)

/-- The next token that a replay of the token returns: its record must not have
expired, and the next token must be unused. -/
def oauthRefreshReplay (s : Store) (token : Secret) : Option Secret :=
  (lookup TokenRow.key s.tokens (.replayOf token)).bind fun row =>
    if s.now < row.expiresAt then
      match row.data with
      | .grant _ _ _ => none
      | .replay successor =>
        (lookup TokenRow.key s.tokens successor).bind fun next =>
          if next.revokedAt.isNone ∧ s.now < next.expiresAt then some successor else none
    else none

/-- Sets `revoked_at` of the rows that satisfy a condition and have none. -/
def revokeWhere (now : Nat) (p : TokenRow → Bool) (tokens : List TokenRow) : List TokenRow :=
  tokens.map fun row =>
    if p row && row.revokedAt.isNone then { row with revokedAt := some now } else row

def mintKey (r : Request) (presented : Presented) (familyID : FamilyID) : APIKey :=
  let grant := presented.grant
  { id := r.keyID
    workspaceKey := grant.workspaceKey
    subjectID := grant.userID
    issuedByUserID := if grant.actor = .app then grant.installerID else grant.userID
    actor := grant.actor
    grantType := r.kind
    scopes := grant.scopes
    oauthClientID := grant.clientID
    authorizationID := grant.authorizationID
    refreshFamilyID := some familyID
    expiresAt := r.keyExpiresAt
    chain := presented.chain }

/-- The code of an application replaces what its user was issued before. -/
def supersedes (r : Request) (presented : Presented) : Bool :=
  r.kind == .authorizationCode && presented.grant.actor == .app

def APIKey.superseded (grant : OAuthRefreshGrant) (key : APIKey) : Bool :=
  key.workspaceKey == grant.workspaceKey && key.revokedAt.isNone &&
    key.oauthClientID == grant.clientID && key.actor == .app && key.subjectID == grant.userID &&
    key.grantType != .clientCredentials

def APIKey.lapsed (now : Nat) (grant : OAuthRefreshGrant) (key : APIKey) : Bool :=
  key.workspaceKey == grant.workspaceKey && key.oauthClientID != "" &&
    key.expiresAt.any fun time => decide (time ≤ now)

def keptKeys (s : Store) (r : Request) (presented : Presented) : List APIKey :=
  (s.keys.map fun key =>
    if supersedes r presented && key.superseded presented.grant then
      { key with revokedAt := some s.now }
    else key).filter fun key => !key.lapsed s.now presented.grant

/-- Adds the new key, whose id must not be in use. -/
def insertKey (key : APIKey) (keys : List APIKey) : Option (List APIKey) :=
  if keys.any fun other => other.workspaceKey == key.workspaceKey && other.id == key.id then none
  else some (key :: keys)

/-- The family of an exchange: that of the grant, or a new one. -/
def familyOf (r : Request) (presented : Presented) : FamilyID :=
  presented.grant.familyID.getD (.derived r.token r.keyID)

def nextRow (s : Store) (r : Request) (presented : Presented) (previous : Option Secret)
    (chain : Chain) : TokenRow where
  key := .generated r.refreshToken
  data := .grant
    { presented.grant with
      familyID := some (familyOf r presented)
      expiresAt := s.now + refreshLifetime } previous chain
  expiresAt := s.now + refreshLifetime

def replayRow (s : Store) (r : Request) : TokenRow where
  key := .replayOf r.token
  data := .replay (.generated r.refreshToken)
  expiresAt := s.now + oauthRefreshReplayGrace
  revokedAt := some s.now

/-- The rows of refresh tokens after an exchange that consumes the presented secret. A key that
is there fails the transaction. -/
def rotate (s : Store) (r : Request) (presented : Presented) : Option (List TokenRow) :=
  if (lookup TokenRow.key s.tokens (.generated r.refreshToken)).isSome then none
  else
    match presented.chain with
    | none => none
    | some chain =>
      if r.kind = .refreshToken then
        if (lookup TokenRow.key s.tokens (.replayOf r.token)).isSome then none
        else some
          (revokeWhere s.now (fun row => row.key = r.token) s.tokens ++
            [nextRow s r presented (some r.token) chain, replayRow s r])
      else some
        (revokeWhere s.now (fun row => supersedes r presented &&
            row.data.decode.clientID == presented.grant.clientID &&
            row.data.decode.userID == presented.grant.userID) s.tokens ++
          [nextRow s r presented none chain])

def consumeCode (s : Store) (r : Request) : List CodeRow :=
  if r.kind = .authorizationCode then
    s.codes.map fun row =>
      if row.code = r.token then { row with usedAt := some s.now } else row
  else s.codes

/-- One exchange, which is one transaction. -/
def exchangeOAuthGrant (s : Store) (r : Request) : Option (Store × Response) :=
  match s.present r with
  | none => none
  | some presented =>
    if !s.admits r presented then none
    else
      let familyID := familyOf r presented
      match insertKey (mintKey r presented familyID) (keptKeys s r presented) with
      | none => none
      | some keys =>
        match presented.usedAt with
        | none => (rotate s r presented).map fun tokens =>
          ({ s with codes := consumeCode s r, tokens, keys },
            ⟨.generated r.refreshToken, r.keyID, familyID⟩)
        | some _ =>
          if r.kind = .refreshToken then
            (oauthRefreshReplay s r.token).map fun successor =>
              ({ s with keys }, ⟨successor, r.keyID, familyID⟩)
          else none

inductive Label where
  | clock (now : Nat)
  /-- Workspaces, members, authorizations and installations change. -/
  | administer (workspaces : List String) (memberships : List (String × String))
      (authorizations : List OAuthAuthorization) (installations : List ApplicationInstallation)
  | authorize (code : Secret) (data : OAuthAuthorizationCode)
  | exchange (r : Request)
  /-- The statements of `RevokeOAuthRefreshToken`, each on its own. -/
  | revoke (token : Secret)
  | deleteReplay (token : Secret)
  | revokeFamily (familyID : FamilyID)
  | revokeAccessFamily (workspaceKey : String) (familyID : FamilyID)

def revokeOAuthAccessFamily (s : Store) (workspaceKey : String) (familyID : FamilyID) : Store :=
  { s with
    keys := s.keys.map fun key =>
      if key.workspaceKey = workspaceKey ∧ key.refreshFamilyID = some familyID ∧
          key.revokedAt = none then
        { key with revokedAt := some s.now }
      else key }

def Store.step (s : Store) : Label → Option Store
  | .clock now => some { s with now }
  | .administer workspaces memberships authorizations installations =>
    some { s with workspaces, memberships, authorizations, installations }
  | .authorize code data =>
    if (lookup CodeRow.code s.codes code).isSome then none
    else some { s with codes := s.codes ++ [{ code, data, expiresAt := data.grant.expiresAt }] }
  | .exchange r => (exchangeOAuthGrant s r).map Prod.fst
  | .revoke token =>
    some { s with tokens := revokeWhere s.now (fun row => row.key = token) s.tokens }
  | .deleteReplay token =>
    some { s with tokens := s.tokens.filter fun row => row.key ≠ .replayOf token }
  | .revokeFamily familyID =>
    some
      { s with
        tokens := revokeWhere s.now (fun row => row.data.decode.familyID = some familyID)
          s.tokens }
  | .revokeAccessFamily workspaceKey familyID =>
    some (revokeOAuthAccessFamily s workspaceKey familyID)

/-! ## What an exchange does -/

/-- The three ways in which an exchange succeeds. -/
inductive Exchanges (s : Store) (r : Request) : Store → Response → Prop
  | code {row : CodeRow} {keys : List APIKey} (hkind : r.kind = .authorizationCode)
      (hrow : row ∈ s.codes) (hcode : row.code = r.token) (hunused : row.usedAt = none)
      (presented : Presented)
      (hpresented : presented = ⟨row.data, row.expiresAt, none, some (.code r.token)⟩)
      (hkeys : insertKey (mintKey r presented (familyOf r presented)) (keptKeys s r presented) =
        some keys)
      (hfresh : ∀ row ∈ s.tokens, row.key ≠ .generated r.refreshToken) :
      Exchanges s r
        { s with
          codes := consumeCode s r
          tokens := revokeWhere s.now (fun row => supersedes r presented &&
              row.data.decode.clientID == presented.grant.clientID &&
              row.data.decode.userID == presented.grant.userID) s.tokens ++
            [nextRow s r presented none (.code r.token)]
          keys }
        ⟨.generated r.refreshToken, r.keyID, familyOf r presented⟩
  | refresh {row : TokenRow} {grant : OAuthRefreshGrant} {previous : Option Secret}
      {chain : Chain} {keys : List APIKey} (hkind : r.kind = .refreshToken)
      (hrow : row ∈ s.tokens) (hkey : row.key = r.token)
      (hdata : row.data = .grant grant previous chain) (hactive : row.revokedAt = none)
      (presented : Presented)
      (hpresented : presented = ⟨{ grant }, row.expiresAt, none, some chain⟩)
      (hkeys : insertKey (mintKey r presented (familyOf r presented)) (keptKeys s r presented) =
        some keys)
      (hfresh : ∀ row ∈ s.tokens, row.key ≠ .generated r.refreshToken)
      (hreplay : ∀ row ∈ s.tokens, row.key ≠ .replayOf r.token) :
      Exchanges s r
        { s with
          tokens := revokeWhere s.now (fun row => row.key = r.token) s.tokens ++
            [nextRow s r presented (some r.token) chain, replayRow s r]
          keys }
        ⟨.generated r.refreshToken, r.keyID, familyOf r presented⟩
  | replay {row sealing next : TokenRow} {grant : OAuthRefreshGrant} {previous : Option Secret}
      {chain : Chain} {keys : List APIKey} (hkind : r.kind = .refreshToken)
      (hrow : row ∈ s.tokens) (hkey : row.key = r.token)
      (hdata : row.data = .grant grant previous chain) (husedAt : row.revokedAt.isSome)
      (presented : Presented)
      (hpresented : presented = ⟨{ grant }, row.expiresAt, row.revokedAt, some chain⟩)
      (hkeys : insertKey (mintKey r presented (familyOf r presented)) (keptKeys s r presented) =
        some keys)
      (hsealing : sealing ∈ s.tokens) (hsealingKey : sealing.key = .replayOf r.token)
      (hsealed : sealing.data = .replay next.key) (hgrace : s.now < sealing.expiresAt)
      (hnext : next ∈ s.tokens) (hnextActive : next.revokedAt = none) :
      Exchanges s r { s with keys } ⟨next.key, r.keyID, familyOf r presented⟩

theorem clientID_of_admits {s : Store} {r : Request} {presented : Presented}
    (h : s.admits r presented) : presented.grant.clientID ≠ "" := by
  simp only [Store.admits, Bool.and_eq_true, bne_iff_ne] at h
  exact h.1.1.1.1.1.2

theorem ne_of_lookup_isNone {s : Store} {secret : Secret}
    (h : ¬(lookup TokenRow.key s.tokens secret).isSome) :
    ∀ row ∈ s.tokens, row.key ≠ secret := by
  rw [Bool.not_eq_true, isSome_eq_false_iff, isNone_iff_eq_none] at h
  exact ne_of_lookup_eq_none h

theorem next_of_replay {s : Store} {token successor : Secret}
    (h : oauthRefreshReplay s token = some successor) :
    ∃ sealing ∈ s.tokens, ∃ next ∈ s.tokens, sealing.key = .replayOf token ∧
      sealing.data = .replay next.key ∧ s.now < sealing.expiresAt ∧
      next.revokedAt = none ∧ next.key = successor := by
  obtain ⟨sealing, hsealing, h⟩ := bind_eq_some_iff.1 h
  split at h
  · next hgrace =>
      split at h
      · cases h
      · next sealed hsealed =>
          obtain ⟨next, hnext, h⟩ := bind_eq_some_iff.1 h
          split at h
          · next hactive =>
              cases h
              have hkey : next.key = successor := key_of_lookup hnext
              exact ⟨sealing, mem_of_lookup hsealing, next, mem_of_lookup hnext,
                key_of_lookup hsealing, by rw [hsealed, hkey], hgrace,
                isNone_iff_eq_none.1 hactive.1, hkey⟩
          · cases h
  · cases h

inductive Presents (s : Store) (r : Request) : Presented → Prop
  | code {row : CodeRow} (hkind : r.kind = .authorizationCode) (hrow : row ∈ s.codes)
      (hcode : row.code = r.token) :
      Presents s r ⟨row.data, row.expiresAt, row.usedAt, some (.code r.token)⟩
  | token {row : TokenRow} {grant : OAuthRefreshGrant} {previous : Option Secret} {chain : Chain}
      (hkind : r.kind = .refreshToken) (hrow : row ∈ s.tokens) (hkey : row.key = r.token)
      (hdata : row.data = .grant grant previous chain) :
      Presents s r ⟨{ grant }, row.expiresAt, row.revokedAt, some chain⟩

theorem presents_of_present {s : Store} {r : Request} {presented : Presented}
    (h : s.present r = some presented) (hadmits : s.admits r presented) :
    Presents s r presented := by
  unfold Store.present at h
  split at h
  · next hkind =>
      obtain ⟨row, hrow, rfl⟩ := map_eq_some_iff.1 h
      exact .code hkind (mem_of_lookup hrow) (key_of_lookup hrow)
  · next hkind =>
      obtain ⟨row, hrow, rfl⟩ := map_eq_some_iff.1 h
      cases hdata : row.data with
      | grant grant previous chain =>
        exact .token hkind (mem_of_lookup hrow) (key_of_lookup hrow) hdata
      | replay successor =>
        have hclient := clientID_of_admits hadmits
        rw [hdata] at hclient
        exact absurd rfl hclient
  · cases h

section Rotate

variable {s : Store} {r : Request} {presented : Presented} {tokens : List TokenRow} {chain : Chain}

/-- A code that is consumed adds the first token of its chain. -/
theorem rotate_code (hkind : r.kind = .authorizationCode) (hchain : presented.chain = some chain)
    (h : rotate s r presented = some tokens) :
    (∀ row ∈ s.tokens, row.key ≠ .generated r.refreshToken) ∧
      tokens = revokeWhere s.now (fun row => supersedes r presented &&
          row.data.decode.clientID == presented.grant.clientID &&
          row.data.decode.userID == presented.grant.userID) s.tokens ++
        [nextRow s r presented none chain] := by
  unfold rotate at h
  split at h
  · cases h
  · next hfresh =>
      rw [hchain, hkind] at h
      exact ⟨ne_of_lookup_isNone hfresh, (some.inj h).symm⟩

/-- A token that is consumed adds the next one and its own replay record. -/
theorem rotate_refresh (hkind : r.kind = .refreshToken) (hchain : presented.chain = some chain)
    (h : rotate s r presented = some tokens) :
    (∀ row ∈ s.tokens, row.key ≠ .generated r.refreshToken) ∧
      (∀ row ∈ s.tokens, row.key ≠ .replayOf r.token) ∧
      tokens = revokeWhere s.now (fun row => row.key = r.token) s.tokens ++
        [nextRow s r presented (some r.token) chain, replayRow s r] := by
  unfold rotate at h
  split at h
  · cases h
  · next hfresh =>
      rw [hchain] at h
      dsimp only at h
      split at h
      · cases h
      · next hreplay =>
          exact ⟨ne_of_lookup_isNone hfresh, ne_of_lookup_isNone hreplay,
            (some.inj h).symm⟩

end Rotate

theorem exchanges_of_exchange {s t : Store} {r : Request} {response : Response}
    (h : exchangeOAuthGrant s r = some (t, response)) : Exchanges s r t response := by
  unfold exchangeOAuthGrant at h
  split at h
  · cases h
  next presented hpresent =>
  split at h
  · cases h
  next hadmits =>
  have hpresents := presents_of_present hpresent (by simpa using hadmits)
  dsimp only at h
  split at h
  · cases h
  next keys hkeys =>
  cases hpresents with
  | @code row hkind hrow hcode =>
    split at h
    · next hunused =>
        dsimp only at hunused
        obtain ⟨tokens, htokens, heq⟩ := map_eq_some_iff.1 h
        cases heq
        obtain ⟨hfresh, rfl⟩ := rotate_code hkind rfl htokens
        rw [hunused] at hkeys ⊢
        exact .code hkind hrow hcode hunused _ rfl hkeys hfresh
    · rw [hkind] at h
      cases h
  | @token row grant previous chain hkind hrow hkey hdata =>
    split at h
    · next hactive =>
        dsimp only at hactive
        obtain ⟨tokens, htokens, heq⟩ := map_eq_some_iff.1 h
        cases heq
        obtain ⟨hfresh, hreplay, rfl⟩ := rotate_refresh hkind rfl htokens
        rw [hactive] at hkeys ⊢
        have hcodes : consumeCode s r = s.codes := if_neg (by rw [hkind]; decide)
        rw [hcodes]
        exact .refresh hkind hrow hkey hdata hactive _ rfl hkeys hfresh hreplay
    · next usedAt hused =>
        rw [if_pos hkind] at h
        obtain ⟨successor, hsuccessor, heq⟩ := map_eq_some_iff.1 h
        cases heq
        obtain ⟨sealing, hsealing, next, hnext, hsealingKey, hsealed, hgrace, hnextActive, rfl⟩ :=
          next_of_replay hsuccessor
        exact .replay hkind hrow hkey hdata
          (by rw [show row.revokedAt = some usedAt from hused]; rfl)
          _ rfl hkeys hsealing hsealingKey hsealed hgrace hnext hnextActive

end Flow.Ports.OAuth
