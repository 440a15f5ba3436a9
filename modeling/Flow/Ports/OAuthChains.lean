import Flow.Ports.OAuthExchange

/-!
# Chains of refresh tokens

A chain is what one code, or one stored refresh token, leads to.  Its tokens
follow one another, only the last can be active, and a consumed token leads
back to the one that follows it while that one is unused.
-/

namespace Flow.Ports.OAuth

open List Option Flow.Verified Run Table

def UsedIn (codes : List CodeRow) (code : Secret) : Prop :=
  ∃ used ∈ codes, used.code = code ∧ used.usedAt.isSome

structure Valid (codes : List CodeRow) (tokens : List TokenRow) : Prop where
  distinct : Distinct TokenRow.key tokens
  grant : ∀ row ∈ tokens, row.data.chain.isSome → ∃ n, row.key = .generated n
  /-- The token before another is consumed. -/
  used : ∀ row ∈ tokens, ∀ token, row.data.previous = some token →
    ∃ old ∈ tokens, old.key = token ∧ old.revokedAt.isSome ∧ old.data.chain = row.data.chain
  single : ∀ row ∈ tokens, ∀ row' ∈ tokens, ∀ token, row.data.previous = some token →
    row'.data.previous = some token → row = row'
  /-- A replay record seals the successor of the token that it is for, and
  lasts from the time when the token was consumed. -/
  sealed : ∀ row ∈ tokens, ∀ successor, row.data = .replay successor →
    ∃ old ∈ tokens, ∃ next ∈ tokens, ∃ time, row.key = .replayOf old.key ∧
      old.revokedAt = some time ∧ row.expiresAt = time + oauthRefreshReplayGrace ∧
      next.key = successor ∧ next.data.previous = some old.key
  active : ∀ row ∈ tokens, ∀ row' ∈ tokens, ∀ chain, row.data.chain = some chain →
    row'.data.chain = some chain → row.revokedAt = none → row'.revokedAt = none → row = row'
  /-- A chain that began with a code has used it. -/
  rooted : ∀ row ∈ tokens, ∀ code, row.data.chain = some (.code code) → UsedIn codes code

variable {token : Secret} {s : Store} {r : Request} {response : Response} {a : Label}
  {row : TokenRow}

theorem TokenData.chain_of_previous {data : TokenData} (h : data.previous = some token) :
    data.chain.isSome := by
  cases data with
  | grant grant previous chain => rfl
  | replay successor => cases h

section Rows

variable {codes : List CodeRow} {tokens : List TokenRow}

/-! ### Rows that are revoked -/

structure Keeps (f : TokenRow → TokenRow) : Prop where
  key : ∀ row, (f row).key = row.key
  data : ∀ row, (f row).data = row.data
  expiresAt : ∀ row, (f row).expiresAt = row.expiresAt
  revokedAt : ∀ row time, row.revokedAt = some time → (f row).revokedAt = some time

theorem keeps_revoke (now : Nat) (p : TokenRow → Bool) : Keeps fun row =>
      if p row && row.revokedAt.isNone then { row with revokedAt := some now } else row where
  key := by intro row; split <;> rfl
  data := by intro row; split <;> rfl
  expiresAt := by intro row; split <;> rfl
  revokedAt := by
    intro row time h
    rw [if_neg]
    · exact h
    · rw [h]
      simp

variable {f : TokenRow → TokenRow} {row : TokenRow}

theorem Keeps.active (hf : Keeps f) (h : (f row).revokedAt = none) : row.revokedAt = none := by
  cases hrow : row.revokedAt with
  | none => rfl
  | some time =>
    rw [hf.revokedAt row time hrow] at h
    cases h

theorem Keeps.isSome (hf : Keeps f) (h : row.revokedAt.isSome) : (f row).revokedAt.isSome := by
  obtain ⟨time, htime⟩ := isSome_iff_exists.1 h
  rw [hf.revokedAt row time htime]
  rfl

theorem Valid.map (h : Valid codes tokens) (hf : Keeps f) : Valid codes (tokens.map f) where
  distinct := h.distinct.map hf.key
  grant := by
    simp only [List.forall_mem_map, hf.key, hf.data]
    exact h.grant
  used := by
    simp only [List.forall_mem_map, hf.data]
    intro row hrow token hprevious
    obtain ⟨old, hold, hkey, hused, hchain⟩ := h.used row hrow token hprevious
    exact ⟨f old, List.mem_map_of_mem hold, (hf.key old).trans hkey, hf.isSome hused,
      by rw [hf.data, hchain]⟩
  single := by
    simp only [List.forall_mem_map, hf.data]
    intro row hrow row' hrow' token hprevious hprevious'
    rw [h.single row hrow row' hrow' token hprevious hprevious']
  sealed := by
    simp only [List.forall_mem_map, hf.key, hf.data, hf.expiresAt]
    intro row hrow successor hdata
    obtain ⟨old, hold, next, hnext, time, hkey, htime, hexpires, hsuccessor, hprevious⟩ :=
      h.sealed row hrow successor hdata
    exact ⟨f old, List.mem_map_of_mem hold, f next, List.mem_map_of_mem hnext, time,
      by rw [hf.key, hkey], hf.revokedAt old time htime, hexpires, by rw [hf.key, hsuccessor],
      by rw [hf.data, hf.key, hprevious]⟩
  active := by
    simp only [List.forall_mem_map, hf.data]
    intro row hrow row' hrow' chain hchain hchain' hactive hactive'
    rw [h.active row hrow row' hrow' chain hchain hchain' (hf.active hactive) (hf.active hactive')]
  rooted := by
    simp only [List.forall_mem_map, hf.data]
    exact h.rooted

theorem Valid.revoke (h : Valid codes tokens) (now : Nat) (p : TokenRow → Bool) :
    Valid codes (revokeWhere now p tokens) :=
  h.map (keeps_revoke now p)

/-! ### Records that are deleted -/

theorem Valid.ne_replayOf (h : Valid codes tokens) (hrow : row ∈ tokens)
    (hchain : row.data.chain.isSome) (token : Secret) : row.key ≠ .replayOf token := by
  obtain ⟨n, hn⟩ := h.grant row hrow hchain
  rw [hn]
  intro hkey
  cases hkey

/-- Only replay records come and go; those that are there are sealed. -/
theorem Valid.of_chains (h : Valid codes tokens) {tokens' : List TokenRow}
    (hdistinct : Distinct TokenRow.key tokens')
    (hmem : ∀ row, row.data.chain.isSome → (row ∈ tokens' ↔ row ∈ tokens))
    (hsealed : ∀ row ∈ tokens', ∀ successor, row.data = .replay successor →
      ∃ old ∈ tokens, ∃ next ∈ tokens, ∃ time, row.key = .replayOf old.key ∧
        old.revokedAt = some time ∧ row.expiresAt = time + oauthRefreshReplayGrace ∧
        next.key = successor ∧ next.data.previous = some old.key) : Valid codes tokens' := by
  have hin : ∀ {row chain}, row ∈ tokens' → row.data.chain = some chain → row ∈ tokens :=
    fun hrow hchain => (hmem _ (isSome_of_eq_some hchain)).1 hrow
  have hsome : ∀ {row token}, row ∈ tokens' → row.data.previous = some token → row ∈ tokens :=
    fun hrow hprevious => (hmem _ (TokenData.chain_of_previous hprevious)).1 hrow
  -- the tokens that rows name are rows of a chain, so they stay
  have hused : ∀ row ∈ tokens, ∀ token, row.data.previous = some token →
      ∃ old ∈ tokens', old.key = token ∧ old.revokedAt.isSome ∧
        old.data.chain = row.data.chain := by
    intro row hrow token hprevious
    obtain ⟨old, hold, hkey, husedAt, hchain⟩ := h.used row hrow token hprevious
    have hisSome := hchain ▸ TokenData.chain_of_previous hprevious
    exact ⟨old, (hmem old hisSome).2 hold, hkey, husedAt, hchain⟩
  constructor
  case distinct => exact hdistinct
  case grant => exact fun row hrow hchain => h.grant row ((hmem row hchain).1 hrow) hchain
  case used =>
    intro row hrow token hprevious
    exact hused row (hsome hrow hprevious) token hprevious
  case single =>
    intro row hrow row' hrow' token hprevious hprevious'
    exact h.single row (hsome hrow hprevious) row' (hsome hrow' hprevious') token hprevious
      hprevious'
  case sealed =>
    intro row hrow successor hdata
    obtain ⟨old, hold, next, hnext, time, hkey, htime, hexpires, hsuccessor, hprevious⟩ :=
      hsealed row hrow successor hdata
    obtain ⟨old', hold', hkey', -, hchain⟩ := hused next hnext old.key hprevious
    have hisSome := TokenData.chain_of_previous hprevious
    obtain rfl := h.distinct old' ((hmem old' (hchain ▸ hisSome)).1 hold') old hold hkey'
    exact ⟨old', hold', next, (hmem next hisSome).2 hnext, time, hkey, htime, hexpires, hsuccessor,
      hprevious⟩
  case active =>
    intro row hrow row' hrow' chain hchain hchain'
    exact h.active row (hin hrow hchain) row' (hin hrow' hchain') chain hchain hchain'
  case rooted => exact fun row hrow code hcode => h.rooted row (hin hrow hcode) code hcode

theorem Valid.deleteReplay (h : Valid codes tokens) (token : Secret) :
    Valid codes (tokens.filter fun row => row.key ≠ .replayOf token) := by
  refine h.of_chains (fun row hrow row' hrow' => ?_) (fun row hchain => ?_) fun row hrow =>
    h.sealed row (mem_of_mem_filter hrow)
  · exact h.distinct row (mem_of_mem_filter hrow) row' (mem_of_mem_filter hrow')
  · exact ⟨mem_of_mem_filter, fun hrow =>
      mem_filter.2 ⟨hrow, decide_eq_true (h.ne_replayOf hrow hchain token)⟩⟩

/-! ### Rows that are added -/

theorem Valid.push (h : Valid codes tokens) {next : TokenRow} {n : Nat} {chain : Chain}
    (hkey : next.key = .generated n) (hfresh : ∀ row ∈ tokens, row.key ≠ next.key)
    (hchain : next.data.chain = some chain) (hused : ∀ token, next.data.previous = some token →
      ∃ old ∈ tokens, old.key = token ∧ old.revokedAt.isSome ∧ old.data.chain = some chain)
    (hsingle : ∀ row ∈ tokens, ∀ token, next.data.previous = some token →
      row.data.previous ≠ some token)
    (hactive : ∀ row ∈ tokens, row.data.chain = some chain → row.revokedAt ≠ none)
    (hrooted : ∀ code, chain = .code code → UsedIn codes code) :
    Valid codes (tokens ++ [next]) := by
  have hold : ∀ {row}, row ∈ tokens → row ∈ tokens ++ [next] := mem_append_left _
  constructor
  case distinct => exact h.distinct.push hfresh
  case grant =>
    intro row hrow
    rcases mem_push hrow with hrow | rfl
    · exact h.grant row hrow
    · exact fun _ => ⟨n, hkey⟩
  case used =>
    intro row hrow token hprevious
    rcases mem_push hrow with hrow | rfl
    · obtain ⟨old, hmem, hrest⟩ := h.used row hrow token hprevious
      exact ⟨old, hold hmem, hrest⟩
    · obtain ⟨old, hmem, holdKey, holdUsed, holdChain⟩ := hused token hprevious
      exact ⟨old, hold hmem, holdKey, holdUsed, holdChain.trans hchain.symm⟩
  case single =>
    intro row hrow row' hrow' token hprevious hprevious'
    rcases mem_push hrow with hmem | rfl <;> rcases mem_push hrow' with hmem' | rfl
    · exact h.single row hmem row' hmem' token hprevious hprevious'
    · exact absurd hprevious (hsingle row hmem token hprevious')
    · exact absurd hprevious' (hsingle row' hmem' token hprevious)
    · rfl
  case sealed =>
    intro row hrow successor hdata
    rcases mem_push hrow with hrow | rfl
    · obtain ⟨old, hmem, next', hmem', time, hrest⟩ := h.sealed row hrow successor hdata
      exact ⟨old, hold hmem, next', hold hmem', time, hrest⟩
    · rw [hdata] at hchain
      cases hchain
  case active =>
    intro row hrow row' hrow' chain' hchain₁ hchain₂ hactive₁ hactive₂
    rcases mem_push hrow with hmem | rfl <;> rcases mem_push hrow' with hmem' | rfl
    · exact h.active row hmem row' hmem' chain' hchain₁ hchain₂ hactive₁ hactive₂
    · exact absurd hactive₁ (hactive row hmem (hchain₁.trans (hchain₂.symm.trans hchain)))
    · exact absurd hactive₂ (hactive row' hmem' (hchain₂.trans (hchain₁.symm.trans hchain)))
    · rfl
  case rooted =>
    intro row hrow code hcode
    rcases mem_push hrow with hrow | rfl
    · exact h.rooted row hrow code hcode
    · exact hrooted code (some.inj (hchain.symm.trans hcode))

theorem Valid.pushReplay (h : Valid codes tokens) {sealing old next : TokenRow} {time : Nat}
    (hkey : sealing.key = .replayOf old.key) (hfresh : ∀ row ∈ tokens, row.key ≠ sealing.key)
    (hdata : sealing.data = .replay next.key) (hold : old ∈ tokens) (hnext : next ∈ tokens)
    (htime : old.revokedAt = some time)
    (hexpires : sealing.expiresAt = time + oauthRefreshReplayGrace)
    (hprevious : next.data.previous = some old.key) : Valid codes (tokens ++ [sealing]) := by
  refine h.of_chains (h.distinct.push hfresh)
    (fun row hchain => ⟨fun hrow => ?_, mem_append_left _⟩) fun row hrow successor hsuccessor => ?_
  · rcases mem_push hrow with hrow | rfl
    · exact hrow
    · rw [hdata] at hchain
      cases hchain
  · rcases mem_push hrow with hrow | rfl
    · exact h.sealed row hrow successor hsuccessor
    · rw [hdata] at hsuccessor
      exact ⟨old, hold, next, hnext, time, hkey, htime, hexpires,
        TokenData.replay.inj hsuccessor, hprevious⟩

end Rows

section Exchange

variable {s : Store} {r : Request}

variable {p : TokenRow → Bool} {row : CodeRow} {presented : Presented}

theorem key_revokeWhere {secret : Secret} (h : ∀ row ∈ s.tokens, row.key ≠ secret) :
    ∀ row ∈ revokeWhere s.now p s.tokens, row.key ≠ secret := by
  intro row hrow
  obtain ⟨old, hold, rfl⟩ := mem_map.1 hrow
  rw [(keeps_revoke s.now p).key]
  exact h old hold

theorem Valid.refresh (h : Valid s.codes s.tokens) {row : TokenRow} {grant : OAuthRefreshGrant}
    {previous : Option Secret} {chain : Chain} (hrow : row ∈ s.tokens) (hkey : row.key = r.token)
    (hdata : row.data = .grant grant previous chain) (hactive : row.revokedAt = none)
    (hfresh : ∀ row ∈ s.tokens, row.key ≠ .generated r.refreshToken)
    (hreplay : ∀ row ∈ s.tokens, row.key ≠ .replayOf r.token) :
    Valid s.codes (revokeWhere s.now (fun row => row.key = r.token) s.tokens ++
      [nextRow s r presented (some r.token) chain, replayRow s r]) := by
  have hkeeps := keeps_revoke s.now fun row => row.key = r.token
  have hchain : row.data.chain = some chain := by rw [hdata]; rfl
  -- the consumed row, as it is afterwards
  have hconsumed : { row with revokedAt := some s.now } ∈
      revokeWhere s.now (fun row => row.key = r.token) s.tokens :=
    mem_map.2 ⟨row, hrow, if_pos (by simp [hkey, hactive])⟩
  have hnext : Valid s.codes (revokeWhere s.now (fun row => row.key = r.token) s.tokens ++
      [nextRow s r presented (some r.token) chain]) := by
    apply (h.revoke s.now _).push rfl (key_revokeWhere hfresh) rfl
    · intro token htoken
      cases htoken
      exact ⟨_, hconsumed, hkey, rfl, hchain⟩
    · intro row' hrow' token htoken hprevious
      cases htoken
      obtain ⟨v, hv, rfl⟩ := mem_map.1 hrow'
      rw [hkeeps.data] at hprevious
      obtain ⟨old, hold, holdKey, holdUsed, -⟩ := h.used v hv r.token hprevious
      rw [h.distinct old hold row hrow (holdKey.trans hkey.symm), hactive] at holdUsed
      cases holdUsed
    · intro row' hrow' hchain' hactive'
      obtain ⟨v, hv, rfl⟩ := mem_map.1 hrow'
      rw [hkeeps.data] at hchain'
      have heq : v = row :=
        h.active v hv row hrow chain hchain' hchain (hkeeps.active hactive') hactive
      rw [heq, if_pos (by simp [hkey, hactive])] at hactive'
      cases hactive'
    · intro code hcode
      exact h.rooted row hrow code (hcode ▸ hchain)
  have hreplayRow :=
    @Valid.pushReplay _ _ hnext (replayRow s r) { row with revokedAt := some s.now } _ _
    (congrArg Secret.replayOf hkey.symm) ?_ rfl (mem_append_left _ hconsumed)
    (mem_append_right _ (mem_singleton_self _)) rfl rfl (congrArg some hkey.symm)
  · rw [append_assoc] at hreplayRow
    exact hreplayRow
  · intro row' hrow'
    rcases mem_push hrow' with hrow' | rfl
    · exact key_revokeWhere hreplay row' hrow'
    · intro heq
      cases heq

theorem used_consumeCode {code : Secret} (h : UsedIn s.codes code) :
    UsedIn (consumeCode s r) code := by
  obtain ⟨used, hused, hcode, husedAt⟩ := h
  unfold consumeCode
  split
  · refine ⟨_, mem_map_of_mem hused, ?_⟩
    split
    · exact ⟨hcode, rfl⟩
    · exact ⟨hcode, husedAt⟩
  · exact ⟨used, hused, hcode, husedAt⟩

theorem used_consumeCode_self (hkind : r.kind = .authorizationCode) (hrow : row ∈ s.codes)
    (hcode : row.code = r.token) : UsedIn (consumeCode s r) r.token := by
  refine ⟨{ row with usedAt := some s.now }, ?_, hcode, rfl⟩
  unfold consumeCode
  rw [if_pos hkind]
  exact mem_map.2 ⟨row, hrow, if_pos hcode⟩

theorem Valid.mono {codes codes' : List CodeRow} {tokens : List TokenRow}
    (h : Valid codes tokens) (hcodes : ∀ code, UsedIn codes code → UsedIn codes' code) :
    Valid codes' tokens :=
  { h with rooted := fun row hrow code hcode => hcodes code (h.rooted row hrow code hcode) }

theorem Valid.code (h : Valid s.codes s.tokens) (hkind : r.kind = .authorizationCode)
    (hrow : row ∈ s.codes) (hcode : row.code = r.token)
    (hunused : ∀ row ∈ s.codes, row.code = r.token → row.usedAt = none)
    (hfresh : ∀ row ∈ s.tokens, row.key ≠ .generated r.refreshToken) :
    Valid (consumeCode s r) (revokeWhere s.now p s.tokens ++
      [nextRow s r presented none (.code r.token)]) := by
  have hcodes : Valid (consumeCode s r) s.tokens := h.mono fun _ => used_consumeCode
  have hvalid := hcodes.revoke s.now p
  apply hvalid.push rfl (key_revokeWhere hfresh) rfl
  · intro token htoken
    cases htoken
  · intro row' _ token htoken
    cases htoken
  · -- the code was not used, so the chain has no token yet
    intro row' hrow' hchain
    obtain ⟨v, hv, rfl⟩ := mem_map.1 hrow'
    rw [(keeps_revoke s.now p).data] at hchain
    obtain ⟨used, hused, husedCode, husedAt⟩ := h.rooted v hv r.token hchain
    rw [hunused used hused husedCode] at husedAt
    cases husedAt
  · intro code heq
    cases heq
    exact used_consumeCode_self hkind hrow hcode

end Exchange

/-- The tables of codes and of refresh tokens. -/
structure Store.Valid (s : Store) : Prop where
  codes : Distinct CodeRow.code s.codes
  tokens : OAuth.Valid s.codes s.tokens

variable {t : Store}

theorem Store.Valid.exchange (h : s.Valid) (hexchange : Exchanges s r t response) : t.Valid := by
  cases hexchange with
  | @code row keys hkind hrow hcode hunused presented hpresented hkeys hfresh =>
    refine ⟨?_, h.tokens.code hkind hrow hcode ?_ hfresh⟩
    · change Distinct CodeRow.code (consumeCode s r)
      unfold consumeCode
      rw [if_pos hkind]
      refine h.codes.map fun row => ?_
      split <;> rfl
    · intro row' hrow' hcode'
      rw [h.codes row' hrow' row hrow (hcode'.trans hcode.symm)]
      exact hunused
  | refresh hkind hrow hkey hdata hactive presented hpresented hkeys hfresh hreplay =>
    exact ⟨h.codes, h.tokens.refresh hrow hkey hdata hactive hfresh hreplay⟩
  | replay => exact ⟨h.codes, h.tokens⟩

theorem Store.Valid.step (h : s.Valid) (hstep : s.step a = some t) : t.Valid := by
  cases a with
  | clock | administer | revokeAccessFamily => cases hstep; exact ⟨h.codes, h.tokens⟩
  | authorize code data =>
    simp only [Store.step] at hstep
    split at hstep
    · cases hstep
    next hnone =>
    cases hstep
    rw [Bool.not_eq_true, isSome_eq_false_iff, isNone_iff_eq_none] at hnone
    refine ⟨h.codes.push (ne_of_lookup_eq_none hnone), h.tokens.mono fun code => ?_⟩
    rintro ⟨used, hused, hrest⟩
    exact ⟨used, mem_append_left _ hused, hrest⟩
  | exchange r =>
    obtain ⟨⟨t', response⟩, hexchange, rfl⟩ := map_eq_some_iff.1 hstep
    exact h.exchange (exchanges_of_exchange hexchange)
  | revoke | revokeFamily => cases hstep; exact ⟨h.codes, h.tokens.revoke s.now _⟩
  | deleteReplay token => cases hstep; exact ⟨h.codes, h.tokens.deleteReplay token⟩

/-! ## Rotation -/

/-- `next` is the token that `token` was exchanged for. -/
def Succeeds (s : Store) (token next : Secret) : Prop :=
  ∃ row ∈ s.tokens, row.key = next ∧ row.data.previous = some token

def Store.Spent (s : Store) (token : Secret) : Prop :=
  ∃ row ∈ s.tokens, row.key = token ∧ row.revokedAt.isSome

structure Store.RotatesSafely (s : Store) : Prop where
  successor : ∀ token next next', Succeeds s token next → Succeeds s token next' → next = next'
  active : ∀ row ∈ s.tokens, ∀ row' ∈ s.tokens, ∀ chain, row.data.chain = some chain →
    row'.data.chain = some chain → row.revokedAt = none → row'.revokedAt = none → row = row'
  /-- A token that was consumed or revoked at `time` returns its unused
  successor, for a limited time, or nothing. -/
  replay : ∀ r t response, exchangeOAuthGrant s r = some (t, response) →
    r.kind = .refreshToken → ∀ row ∈ s.tokens, row.key = r.token →
    ∀ time, row.revokedAt = some time →
      s.now < time + oauthRefreshReplayGrace ∧ Succeeds s r.token response.refreshToken ∧
        ¬s.Spent response.refreshToken ∧ t.tokens = s.tokens

/-- A store whose refresh tokens each begin a chain.  A token may have no
family, and may be consumed or revoked. -/
structure Store.Initial (s : Store) : Prop where
  codes : Distinct CodeRow.code s.codes
  tokens : Distinct TokenRow.key s.tokens
  roots : ∀ row ∈ s.tokens, ∃ n grant, row.key = .generated n ∧
    row.data = .grant grant none (.token row.key)
  keys : ∀ key ∈ s.keys, key.chain = none

theorem Store.Initial.chain (h : s.Initial) (hrow : row ∈ s.tokens) :
    row.data.chain = some (.token row.key) := by
  obtain ⟨n, grant, hkey, hdata⟩ := h.roots row hrow
  rw [hdata]
  rfl

theorem Store.Initial.previous (h : s.Initial) (hrow : row ∈ s.tokens) :
    row.data.previous = none := by
  obtain ⟨n, grant, hkey, hdata⟩ := h.roots row hrow
  rw [hdata]
  rfl

theorem Store.Initial.valid (h : s.Initial) : s.Valid where
  codes := h.codes
  tokens :=
    { distinct := h.tokens
      grant := by
        intro row hrow _
        obtain ⟨n, grant, hkey, -⟩ := h.roots row hrow
        exact ⟨n, hkey⟩
      used := by
        intro row hrow token hprevious
        rw [h.previous hrow] at hprevious
        cases hprevious
      single := by
        intro row hrow row' _ token hprevious
        rw [h.previous hrow] at hprevious
        cases hprevious
      sealed := by
        intro row hrow successor hdata
        have hchain := h.chain hrow
        rw [hdata] at hchain
        cases hchain
      active := by
        intro row hrow row' hrow' chain hchain hchain' _ _
        have heq := hchain.trans hchain'.symm
        rw [h.chain hrow, h.chain hrow'] at heq
        exact h.tokens row hrow row' hrow' (Chain.token.inj (some.inj heq))
      rooted := by
        intro row hrow code hchain
        rw [h.chain hrow] at hchain
        cases hchain }

theorem Store.Valid.replay (h : s.Valid) (hexchange : Exchanges s r t response)
    (hkind : r.kind = .refreshToken) (hrow : row ∈ s.tokens) (hkey : row.key = r.token) {time : Nat}
    (htime : row.revokedAt = some time) :
    s.now < time + oauthRefreshReplayGrace ∧ Succeeds s r.token response.refreshToken ∧
      ¬s.Spent response.refreshToken ∧ t.tokens = s.tokens := by
  cases hexchange with
  | code hcode =>
    rw [hcode] at hkind
    cases hkind
  | @refresh row' _ _ _ _ _ hrow' hkey' _ hactive =>
    rw [h.tokens.distinct row' hrow' row hrow (hkey'.trans hkey.symm), htime] at hactive
    cases hactive
  | @replay row' sealing next _ _ _ _ _ _ _ _ _ _ _ _ hsealing hsealingKey hsealed hgrace hnext
      hnextActive =>
      obtain ⟨old, hold, next', hnext', time', hkeyOld, htimeOld, hexpires, hkeyNext, hprevious⟩ :=
        h.tokens.sealed sealing hsealing next.key hsealed
      have holdKey : old.key = r.token := Secret.replayOf.inj (hkeyOld.symm.trans hsealingKey)
      have hrowOld : old = row := h.tokens.distinct old hold row hrow (holdKey.trans hkey.symm)
      have hrowNext : next' = next := h.tokens.distinct next' hnext' next hnext hkeyNext
      rw [hrowOld, htime] at htimeOld
      rw [hexpires, ← some.inj htimeOld] at hgrace
      refine ⟨hgrace, ⟨next, hnext, rfl, by rw [← hrowNext, hprevious, holdKey]⟩, ?_, rfl⟩
      rintro ⟨other, hother, hotherKey, hotherSpent⟩
      rw [h.tokens.distinct other hother next hnext hotherKey, hnextActive] at hotherSpent
      cases hotherSpent

theorem Store.Valid.rotatesSafely (h : s.Valid) : s.RotatesSafely where
  successor := by
    rintro token _ _ ⟨row, hrow, rfl, hprevious⟩ ⟨row', hrow', rfl, hprevious'⟩
    rw [h.tokens.single row hrow row' hrow' token hprevious hprevious']
  active := h.tokens.active
  replay := fun r t response hexchange hkind row hrow hkey time htime =>
    h.replay (exchanges_of_exchange hexchange) hkind hrow hkey htime

/-! ### Spent tokens stay spent -/

def Stays (s t : Store) : Prop :=
  ∀ row ∈ s.tokens, row.data.chain.isSome → ∃ row' ∈ t.tokens, row'.key = row.key ∧
    row'.data = row.data ∧ (row.revokedAt.isSome → row'.revokedAt.isSome)

theorem Stays.refl (s : Store) : Stays s s := fun row hrow _ => ⟨row, hrow, rfl, rfl, id⟩

theorem Stays.trans {u : Store} (h : Stays s t) (h' : Stays t u) : Stays s u := by
  intro row hrow hchain
  obtain ⟨row', hrow', hkey, hdata, hspent⟩ := h row hrow hchain
  obtain ⟨row'', hrow'', hkey', hdata', hspent'⟩ := h' row' hrow' (hdata ▸ hchain)
  exact ⟨row'', hrow'', hkey'.trans hkey, hdata'.trans hdata, fun h => hspent' (hspent h)⟩

theorem stays_of_append {p : TokenRow → Bool} {more : List TokenRow}
    (h : t.tokens = revokeWhere s.now p s.tokens ++ more) : Stays s t := by
  intro row hrow _
  have hkeeps := keeps_revoke s.now p
  refine ⟨_, h ▸ mem_append_left _ (mem_map_of_mem hrow), hkeeps.key row,
    hkeeps.data row, hkeeps.isSome⟩

theorem stays_of_exchange (h : Exchanges s r t response) : Stays s t := by
  cases h with
  | code | refresh => exact stays_of_append rfl
  | replay => exact Stays.refl s

theorem stays_of_step (h : s.Valid) (hstep : s.step a = some t) : Stays s t := by
  cases a with
  | clock | administer | revokeAccessFamily => cases hstep; exact Stays.refl s
  | authorize code data =>
    simp only [Store.step] at hstep
    split at hstep
    · cases hstep
    · cases hstep
      exact Stays.refl s
  | exchange r =>
    obtain ⟨⟨t', response⟩, hexchange, rfl⟩ := map_eq_some_iff.1 hstep
    exact stays_of_exchange (exchanges_of_exchange hexchange)
  | revoke | revokeFamily => cases hstep; exact stays_of_append (append_nil _).symm
  | deleteReplay token =>
    cases hstep
    intro row hrow hchain
    refine ⟨row, mem_filter.2 ⟨hrow, ?_⟩, rfl, rfl, id⟩
    exact decide_eq_true (h.tokens.ne_replayOf hrow hchain token)

theorem stays_of_reaches (h : s.Valid) (hrun : Reaches Store.step Unrestricted s t) :
    t.Valid ∧ Stays s t := by
  refine Reaches.invariant (P := fun t => t.Valid ∧ Stays s t) ?_ hrun ⟨h, Stays.refl s⟩
  intro t a u ⟨hvalid, hstays⟩ _ hstep
  exact ⟨hvalid.step hstep, hstays.trans (stays_of_step hvalid hstep)⟩

/-- The token after one that leads to a spent token is spent. -/
theorem spent_successor (h : s.Valid) {last : Secret}
    (hpath : Relation.TransGen (Succeeds s) token last) (hlast : s.Spent last) :
    ∃ next, Succeeds s token next ∧ s.Spent next := by
  rcases Relation.TransGen.head'_iff.1 hpath with ⟨next, hnext, hrest⟩
  refine ⟨next, hnext, ?_⟩
  rcases Relation.ReflTransGen.cases_head hrest with rfl | ⟨after, hafter, -⟩
  · exact hlast
  · obtain ⟨row, hrow, -, hprevious⟩ := hafter
    obtain ⟨old, hold, hkey, hused, -⟩ := h.tokens.used row hrow next hprevious
    exact ⟨old, hold, hkey, hused⟩

/-- A token whose successor is spent returns nothing. -/
theorem exchange_of_spent (h : s.Valid) {next : Secret} (hnext : Succeeds s token next)
    (hspent : s.Spent next) (hkind : r.kind = .refreshToken) (htoken : r.token = token) :
    exchangeOAuthGrant s r = none := by
  rw [eq_none_iff_forall_not_mem]
  rintro ⟨t, response⟩ hexchange
  obtain ⟨row, hrow, hkey, hprevious⟩ := hnext
  obtain ⟨old, hold, holdKey, holdUsed, -⟩ := h.tokens.used row hrow token hprevious
  obtain ⟨time, htime⟩ := isSome_iff_exists.1 holdUsed
  obtain ⟨-, hsucceeds, hunspent, -⟩ :=
    h.replay (exchanges_of_exchange hexchange) hkind hold (holdKey.trans htoken.symm) htime
  have heq := h.rotatesSafely.successor token _ _ ⟨row, hrow, hkey, hprevious⟩ (htoken ▸ hsucceeds)
  exact hunspent (heq ▸ hspent)

/-- **Refresh tokens rotate safely**, in every run: each has at most one successor, a chain has
at most one active token, a consumed one returns its successor for a limited time and while that
is unused, and once a token was consumed or revoked no token before it in its chain returns
anything. -/
theorem rotates_of_reaches {s t : Store} (hs : s.Initial)
    (h : Reaches Store.step Unrestricted s t) :
    t.RotatesSafely ∧
      ∀ u, Reaches Store.step Unrestricted t u → ∀ token last,
        Relation.TransGen (Succeeds t) token last → t.Spent last →
          ∀ r, r.kind = .refreshToken → r.token = token → exchangeOAuthGrant u r = none := by
  obtain ⟨hvalid, -⟩ := stays_of_reaches hs.valid h
  refine ⟨hvalid.rotatesSafely, fun u hu token last hpath hlast r hkind htoken => ?_⟩
  obtain ⟨hvalid', hstays⟩ := stays_of_reaches hvalid hu
  obtain ⟨next, ⟨row, hrow, hkey, hprevious⟩, spent, hspent, hspentKey, hspentAt⟩ :=
    spent_successor hvalid hpath hlast
  have heq : spent = row := hvalid.tokens.distinct spent hspent row hrow (hspentKey.trans hkey.symm)
  obtain ⟨row', hrow', hkey', hdata', hspent'⟩ :=
    hstays row hrow (TokenData.chain_of_previous hprevious)
  exact exchange_of_spent hvalid' ⟨row', hrow', hkey'.trans hkey, hdata' ▸ hprevious⟩
    ⟨row', hrow', hkey'.trans hkey, hspent' (heq ▸ hspentAt)⟩ hkind htoken

def storedGrant (familyID : Option FamilyID) : OAuthRefreshGrant where
  clientID := "client"
  workspaceKey := "workspace"
  userID := "user"
  authorizationID := "authorization"
  familyID := familyID

def storeWith (familyID : Option FamilyID) : Store where
  now := 0
  workspaces := ["workspace"]
  memberships := [("workspace", "user")]
  authorizations := [⟨"workspace", "authorization", "client", "user", [], none⟩]
  installations := []
  codes := []
  tokens :=
    [{ key := .generated 0
       data := .grant (storedGrant familyID) none (.token (.generated 0))
       expiresAt := refreshLifetime }]
  keys := []

theorem storeWith_initial (familyID : Option FamilyID) : (storeWith familyID).Initial where
  codes := fun _ hrow => absurd hrow not_mem_nil
  tokens := by
    intro row hrow row' hrow' _
    rw [mem_singleton.1 hrow, mem_singleton.1 hrow']
  roots := by
    intro row hrow
    rw [mem_singleton.1 hrow]
    exact ⟨0, storedGrant familyID, rfl, rfl⟩
  keys := fun _ hkey => absurd hkey not_mem_nil

def refreshWith (token : Secret) (refreshToken : Nat) (keyID : String) : Request where
  kind := .refreshToken
  token := token
  clientID := "client"
  refreshToken := refreshToken
  keyID := keyID
  keyExpiresAt := some (60 * 60 * 1000000000)
  validateCode := none
  approved := fun _ _ => true

/-- Two rotations and, between them, a replay; then the first token, which is
before a consumed one, returns nothing. -/
theorem rotates_after_replay :
    ∃ t, Reaches Store.step Unrestricted (storeWith none) t ∧ t.RotatesSafely ∧
      exchangeOAuthGrant t (refreshWith (.generated 0) 3 "k4") = none := by
  obtain ⟨t, hrun, hrow⟩ : ∃ t, Reaches Store.step Unrestricted (storeWith none) t ∧
      (t.tokens.any fun row => row.key = .generated 1 && row.data.previous = some (.generated 0) &&
        row.revokedAt.isSome) = true :=
    exists_reaches
      [.exchange (refreshWith (.generated 0) 1 "k1"), .exchange (refreshWith (.generated 0) 2 "k2"),
        .exchange (refreshWith (.generated 1) 2 "k3")] _ (by decide)
  obtain ⟨row, hrow, hfacts⟩ := any_eq_true.1 hrow
  simp only [Bool.and_eq_true, decide_eq_true_eq] at hfacts
  have hrotates := rotates_of_reaches (storeWith_initial none) hrun
  exact ⟨t, hrun, hrotates.1, hrotates.2 t (Reaches.refl t) (.generated 0) (.generated 1)
    (Relation.TransGen.single ⟨row, hrow, hfacts.1.1, hfacts.1.2⟩)
    ⟨row, hrow, hfacts.1.1, hfacts.2⟩ _
    rfl rfl⟩

end Flow.Ports.OAuth
