import Flow.Ports.OAuthChains

/-!
# Families of tokens

Every refresh token and every access token that a chain issues carries the id
of a family, by which all its access tokens can be revoked.  An exchange takes
the family of the presented token.  A token that was stored before there were
families has none; its exchange derives one from the token and from the id of
the new key.
-/

namespace Flow.Ports.OAuth

open List Option Flow.Verified Run Table

def Carries (s : Store) (chain : Chain) (familyID : FamilyID) (workspaceKey : String) : Prop :=
  (∃ row ∈ s.tokens, row.data.chain = some chain ∧ row.data.decode.familyID = some familyID ∧
    row.data.decode.workspaceKey = workspaceKey) ∨
  (∃ key ∈ s.keys, key.chain = some chain ∧ key.refreshFamilyID = some familyID ∧
    key.workspaceKey = workspaceKey)

structure Store.OneFamily (s : Store) : Prop where
  uniform : ∀ chain familyID familyID' workspaceKey workspaceKey',
    Carries s chain familyID workspaceKey → Carries s chain familyID' workspaceKey' →
      familyID = familyID' ∧ workspaceKey = workspaceKey'
  token : ∀ row ∈ s.tokens, row.data.previous.isSome → row.data.decode.familyID.isSome
  key : ∀ key ∈ s.keys, key.chain.isSome → key.refreshFamilyID.isSome

/-- An active token without a family is the first of its chain, which has issued
nothing; and a chain that began with a code has used it. -/
structure Store.Families (s : Store) : Prop extends s.OneFamily where
  unissued : ∀ row ∈ s.tokens, ∀ chain, row.data.chain = some chain →
    row.data.decode.familyID = none → row.revokedAt = none →
      ∀ familyID workspaceKey, ¬Carries s chain familyID workspaceKey
  rooted : ∀ key ∈ s.keys, ∀ code, key.chain = some (.code code) → UsedIn s.codes code

/-- A token that is presented after its use has a family. -/
def Store.familyKnown (s : Store) : Label → Bool
  | .exchange r => r.kind != .refreshToken || s.tokens.all fun row =>
    row.key != r.token || row.revokedAt.isNone || row.data.chain.isNone ||
      row.data.decode.familyID.isSome
  | _ => true

def FamilyKnown (s : Store) (a : Label) : Prop := s.familyKnown a

instance (s : Store) (a : Label) : Decidable (FamilyKnown s a) :=
  inferInstanceAs (Decidable (_ = true))

/-! ## What a step adds -/

variable {s t : Store} {r : Request} {key : APIKey} {row : TokenRow} {presented : Presented}
  {familyID : FamilyID} {workspaceKey : String}

/-- The key carries what one of some others does. -/
def KeyOf (keys : List APIKey) (key : APIKey) : Prop :=
  ∃ old ∈ keys, key.chain = old.chain ∧ key.refreshFamilyID = old.refreshFamilyID ∧
    key.workspaceKey = old.workspaceKey

/-- The row is one of some others, perhaps revoked. -/
def RowOf (tokens : List TokenRow) (row : TokenRow) : Prop :=
  ∃ old ∈ tokens, old.data = row.data ∧ (row.revokedAt = none → old.revokedAt = none)

/-- What a step adds to a chain, if to any, carries one family. -/
structure Adds (s t : Store) (chain : Option Chain) (familyID : FamilyID)
    (workspaceKey : String) : Prop where
  token : ∀ row ∈ t.tokens, row.data.chain.isSome → RowOf s.tokens row ∨
    row.data.chain = chain ∧ row.data.decode.familyID = some familyID ∧
      row.data.decode.workspaceKey = workspaceKey
  key : ∀ key ∈ t.keys, KeyOf s.keys key ∨
    key.chain = chain ∧ key.refreshFamilyID = some familyID ∧ key.workspaceKey = workspaceKey

theorem carries_of_adds {added : Option Chain} (h : Adds s t added familyID workspaceKey)
    {chain : Chain} {familyID' : FamilyID} {workspaceKey' : String}
    (hcarries : Carries t chain familyID' workspaceKey') :
    Carries s chain familyID' workspaceKey' ∨
      added = some chain ∧ familyID' = familyID ∧ workspaceKey' = workspaceKey := by
  rcases hcarries with ⟨row, hrow, hfacts⟩ | ⟨key, hkey, hfacts⟩
  · rcases h.token row hrow (by rw [hfacts.1]; rfl) with ⟨old, hold, hdata, -⟩ | ⟨hadded, hnew⟩
    · exact .inl (.inl ⟨old, hold, hdata.symm ▸ hfacts⟩)
    · exact .inr ⟨hadded.symm.trans hfacts.1, some.inj (hfacts.2.1.symm.trans hnew.1),
        hfacts.2.2.symm.trans hnew.2⟩
  · rcases h.key key hkey with ⟨old, hold, hchain, hfamily, hworkspace⟩ | ⟨hadded, hnew⟩
    · rw [hchain, hfamily, hworkspace] at hfacts
      exact .inl (.inr ⟨old, hold, hfacts⟩)
    · exact .inr ⟨hadded.symm.trans hfacts.1, some.inj (hfacts.2.1.symm.trans hnew.1),
        hfacts.2.2.symm.trans hnew.2⟩

/-- A step keeps one family, if it adds what the chain already carries, or the chain
carries nothing. -/
theorem Store.Families.add {added : Option Chain} (h : s.Families)
    (hadds : Adds s t added familyID workspaceKey)
    (hsame : ∀ chain familyID' workspaceKey', added = some chain →
      Carries s chain familyID' workspaceKey' → familyID' = familyID ∧ workspaceKey' = workspaceKey)
    (hunissued : ∀ row ∈ t.tokens, ∀ chain, row.data.chain = some chain →
      row.data.decode.familyID = none → row.revokedAt = none →
        added ≠ some chain ∧ RowOf s.tokens row)
    (hcodes : ∀ code, UsedIn s.codes code → UsedIn t.codes code)
    (hcode : ∀ code, added = some (.code code) → UsedIn t.codes code) : t.Families where
  uniform := by
    intro chain familyID' familyID'' workspaceKey' workspaceKey'' hcarries hcarries'
    rcases carries_of_adds hadds hcarries with hold | ⟨hadded, rfl, rfl⟩ <;>
      rcases carries_of_adds hadds hcarries' with hold' | ⟨hadded', rfl, rfl⟩
    · exact h.uniform chain _ _ _ _ hold hold'
    · exact hsame chain _ _ hadded' hold
    · have heq := hsame chain _ _ hadded hold'
      exact ⟨heq.1.symm, heq.2.symm⟩
    · exact ⟨rfl, rfl⟩
  token := by
    intro row hrow hprevious
    obtain ⟨token, htoken⟩ := isSome_iff_exists.1 hprevious
    rcases hadds.token row hrow (TokenData.chain_of_previous htoken) with
      ⟨old, hold, hdata, -⟩ | ⟨-, hfamily, -⟩
    · rw [← hdata] at hprevious ⊢
      exact h.token old hold hprevious
    · rw [hfamily]
      rfl
  key := by
    intro key hkey hchain
    rcases hadds.key key hkey with ⟨old, hold, hchain', hfamily, -⟩ | ⟨-, hfamily, -⟩
    · rw [hfamily]
      exact h.key old hold (hchain' ▸ hchain)
    · rw [hfamily]
      rfl
  unissued := by
    intro row hrow chain hchain hfamily hactive familyID' workspaceKey' hcarries
    obtain ⟨hother, old, hold, hdata, holdActive⟩ := hunissued row hrow chain hchain hfamily hactive
    rcases carries_of_adds hadds hcarries with hcarries | ⟨hadded, -, -⟩
    · exact h.unissued old hold chain (hdata ▸ hchain) (hdata ▸ hfamily) (holdActive hactive) _ _
        hcarries
    · exact hother hadded
  rooted := by
    intro key hkey code hchain
    rcases hadds.key key hkey with ⟨old, hold, hchain', -, -⟩ | ⟨hadded, -, -⟩
    · exact hcodes code (h.rooted old hold code (hchain' ▸ hchain))
    · exact hcode code (hadded.symm.trans hchain)

theorem Store.Families.shrink (h : s.Families) (htokens : ∀ row ∈ t.tokens, RowOf s.tokens row)
    (hkeys : ∀ key ∈ t.keys, KeyOf s.keys key)
    (hcodes : ∀ code, UsedIn s.codes code → UsedIn t.codes code) : t.Families := by
  have hadds : Adds s t none (.named "") "" :=
    ⟨fun row hrow _ => .inl (htokens row hrow), fun key hkey => .inl (hkeys key hkey)⟩
  exact h.add hadds nofun (fun row hrow _ _ _ _ => ⟨nofun, htokens row hrow⟩) hcodes nofun

/-! ## Exchanges -/

def Mints (s : Store) (r : Request) (presented : Presented) (keys : List APIKey) : Prop :=
  insertKey (mintKey r presented (familyOf r presented)) (keptKeys s r presented) = some keys

theorem Mints.mem {keys : List APIKey} (h : Mints s r presented keys) (hkey : key ∈ keys) :
    KeyOf s.keys key ∨ key.chain = presented.chain ∧
      key.refreshFamilyID = some (familyOf r presented) ∧
        key.workspaceKey = presented.grant.workspaceKey := by
  unfold Mints insertKey at h
  split at h
  · cases h
  cases h
  rcases mem_cons.1 hkey with rfl | hkept
  · exact .inr ⟨rfl, rfl, rfl⟩
  · obtain ⟨old, hold, rfl⟩ := mem_map.1 (mem_of_mem_filter hkept)
    refine .inl ⟨old, hold, ?_⟩
    split
    · exact ⟨rfl, rfl, rfl⟩
    · exact ⟨rfl, rfl, rfl⟩

section Exchange

variable {chain : Chain} {grant : OAuthRefreshGrant} {previous : Option Secret}
  {p : TokenRow → Bool} {keys : List APIKey}

theorem Store.Families.same (h : s.Families) (hrow : row ∈ s.tokens)
    (hdata : row.data = .grant grant previous chain) (hfamily : grant.familyID = some familyID)
    (hgrant : presented.grant = grant) :
    Carries s chain familyID grant.workspaceKey ∧
      ∀ familyID' workspaceKey, Carries s chain familyID' workspaceKey →
        familyID' = familyOf r presented ∧ workspaceKey = presented.grant.workspaceKey := by
  have hcarries : Carries s chain familyID grant.workspaceKey :=
    Or.inl ⟨row, hrow, by rw [hdata]; rfl, by rw [hdata]; exact hfamily, by rw [hdata]; rfl⟩
  refine ⟨hcarries, fun familyID' workspaceKey hcarries' => ?_⟩
  have heq := h.uniform chain _ _ _ _ hcarries' hcarries
  rw [familyOf, hgrant, hfamily]
  exact heq

theorem rowOf_revokeWhere {now : Nat} {tokens : List TokenRow}
    (h : row ∈ revokeWhere now p tokens) : RowOf tokens row := by
  obtain ⟨old, hold, rfl⟩ := mem_map.1 h
  exact ⟨old, hold, ((keeps_revoke now p).data old).symm, (keeps_revoke now p).active⟩

/-- The first use of a token: its family goes on, or begins. -/
theorem Store.Families.refresh (h : s.Families) (hvalid : s.Valid) (hrow : row ∈ s.tokens)
    (hkey : row.key = r.token) (hdata : row.data = .grant grant previous chain)
    (hactive : row.revokedAt = none)
    (hpresented : presented = ⟨{ grant }, row.expiresAt, none, some chain⟩)
    (hkeys : Mints s r presented keys) :
    Store.Families { s with
        tokens := revokeWhere s.now (fun row => row.key = r.token) s.tokens ++
          [nextRow s r presented (some r.token) chain, replayRow s r]
        keys } := by
  have hchain : row.data.chain = some chain := by rw [hdata]; rfl
  have hpresentedChain : presented.chain = some chain := by rw [hpresented]
  refine h.add ⟨?_, fun _ => hkeys.mem⟩ ?_ ?_ (fun _ hused => hused) ?_
  · intro row' hrow' hchain'
    rcases mem_append.1 hrow' with hrow' | hrow'
    · exact .inl (rowOf_revokeWhere hrow')
    · rcases mem_pair.1 hrow' with rfl | rfl
      · exact .inr ⟨hpresentedChain.symm, rfl, rfl⟩
      · cases hchain'
  · intro chain' familyID workspaceKey hchain' hcarries
    cases hpresentedChain.symm.trans hchain'
    cases hfamily : grant.familyID with
    | none =>
      refine absurd hcarries (h.unissued row hrow chain hchain ?_ hactive _ _)
      rw [hdata]
      exact hfamily
    | some known =>
      exact (h.same hrow hdata hfamily (by rw [hpresented]; rfl)).2 familyID workspaceKey hcarries
  · intro row' hrow' chain' hchain' hfamily' hactive'
    rcases mem_append.1 hrow' with hrow' | hrow'
    · refine ⟨fun heq => ?_, rowOf_revokeWhere hrow'⟩
      obtain ⟨old, hold, rfl⟩ := mem_map.1 hrow'
      have hkeeps := keeps_revoke s.now fun row => row.key = r.token
      -- an active token of the same chain is the one that is consumed
      rw [hkeeps.data] at hchain'
      have hsame : old = row := hvalid.tokens.active old hold row hrow chain'
        hchain' (hchain.trans (hpresentedChain.symm.trans heq)) (hkeeps.active hactive') hactive
      rw [hsame, if_pos (by simp [hkey, hactive])] at hactive'
      cases hactive'
    · rcases mem_pair.1 hrow' with rfl | rfl
      · cases hfamily'
      · cases hchain'
  · intro code heq
    exact hvalid.tokens.rooted row hrow code (hchain.trans (hpresentedChain.symm.trans heq))

theorem Store.Families.replay (h : s.Families) (hvalid : s.Valid) (hrow : row ∈ s.tokens)
    (hdata : row.data = .grant grant previous chain) (hfamily : grant.familyID = some familyID)
    (hpresented : presented = ⟨{ grant }, row.expiresAt, row.revokedAt, some chain⟩)
    (hkeys : Mints s r presented keys) : Store.Families { s with keys } := by
  have hchain : row.data.chain = some chain := by rw [hdata]; rfl
  have hpresentedChain : presented.chain = some chain := by rw [hpresented]
  have hgrant : presented.grant = grant := by rw [hpresented]; rfl
  have hsame := h.same (r := r) hrow hdata hfamily hgrant
  refine h.add ⟨?_, fun _ => hkeys.mem⟩ ?_ ?_ (fun _ hused => hused) ?_
  · exact fun row' hrow' _ => .inl ⟨row', hrow', rfl, id⟩
  · intro chain' familyID' workspaceKey hchain' hcarries
    cases hpresentedChain.symm.trans hchain'
    exact hsame.2 familyID' workspaceKey hcarries
  · intro row' hrow' chain' hchain' hfamily' hactive'
    refine ⟨fun heq => ?_, row', hrow', rfl, id⟩
    cases hpresentedChain.symm.trans heq
    exact h.unissued row' hrow' chain hchain' hfamily' hactive' _ _ hsame.1
  · intro code heq
    exact hvalid.tokens.rooted row hrow code (hchain.trans (hpresentedChain.symm.trans heq))

theorem Store.Families.code (h : s.Families) (hvalid : s.Valid) {row : CodeRow}
    (hkind : r.kind = .authorizationCode) (hrow : row ∈ s.codes) (hcode : row.code = r.token)
    (hunused : row.usedAt = none)
    (hpresented : presented = ⟨row.data, row.expiresAt, none, some (.code r.token)⟩)
    (hkeys : Mints s r presented keys) :
    Store.Families { s with
        codes := consumeCode s r
        tokens := revokeWhere s.now p s.tokens ++ [nextRow s r presented none (.code r.token)]
        keys } := by
  have hpresentedChain : presented.chain = some (.code r.token) := by rw [hpresented]
  have hfirst : ¬UsedIn s.codes r.token := by
    rintro ⟨used, hused, husedCode, husedAt⟩
    rw [hvalid.codes used hused row hrow (husedCode.trans hcode.symm), hunused] at husedAt
    cases husedAt
  have hnone : ∀ old ∈ s.tokens, old.data.chain ≠ some (.code r.token) := fun old hold hchain =>
    hfirst (hvalid.tokens.rooted old hold r.token hchain)
  refine h.add ⟨?_, fun _ => hkeys.mem⟩ ?_ ?_ (fun _ => used_consumeCode) ?_
  · intro row' hrow' _
    rcases mem_push hrow' with hrow' | rfl
    · exact .inl (rowOf_revokeWhere hrow')
    · exact .inr ⟨hpresentedChain.symm, rfl, rfl⟩
  · intro chain' familyID workspaceKey hchain' hcarries
    cases hpresentedChain.symm.trans hchain'
    rcases hcarries with ⟨old, hold, hchain, -⟩ | ⟨key, hkey, hchain, -⟩
    · exact absurd hchain (hnone old hold)
    · exact absurd (h.rooted key hkey r.token hchain) hfirst
  · intro row' hrow' chain' hchain' hfamily' hactive'
    rcases mem_push hrow' with hrow' | rfl
    · have hold := rowOf_revokeWhere hrow'
      refine ⟨fun heq => ?_, hold⟩
      cases hpresentedChain.symm.trans heq
      obtain ⟨old, hold, hdata, -⟩ := hold
      exact hnone old hold (hdata ▸ hchain')
    · cases hfamily'
  · intro code heq
    cases hpresentedChain.symm.trans heq
    exact used_consumeCode_self hkind hrow hcode

end Exchange

theorem family_of_familyKnown (h : FamilyKnown s (.exchange r)) (hkind : r.kind = .refreshToken)
    {grant : OAuthRefreshGrant} {previous : Option Secret} {chain : Chain}
    (hrow : row ∈ s.tokens) (hkey : row.key = r.token)
    (hdata : row.data = .grant grant previous chain) (hused : row.revokedAt.isSome) :
    ∃ familyID, grant.familyID = some familyID := by
  unfold FamilyKnown Store.familyKnown at h
  dsimp only at h
  rw [hkind] at h
  have hall := all_eq_true.1 ((Bool.or_eq_true_iff.1 h).resolve_left (by decide)) row hrow
  rw [hkey, hdata, bne_self_eq_false, isNone_eq_false_iff.2 hused] at hall
  exact isSome_iff_exists.1 hall

theorem Store.Families.exchange {response : Response} (h : s.Families)
    (hvalid : s.Valid) (hknown : FamilyKnown s (.exchange r))
    (hexchange : Exchanges s r t response) :
    t.Families := by
  cases hexchange with
  | code hkind hrow hcode hunused presented hpresented hkeys hfresh =>
    exact h.code hvalid hkind hrow hcode hunused hpresented hkeys
  | refresh hkind hrow hkey hdata hactive presented hpresented hkeys hfresh hreplay =>
    exact h.refresh hvalid hrow hkey hdata hactive hpresented hkeys
  | replay hkind hrow hkey hdata hused presented hpresented hkeys =>
    obtain ⟨familyID, hfamily⟩ := family_of_familyKnown hknown hkind hrow hkey hdata hused
    exact h.replay hvalid hrow hdata hfamily hpresented hkeys

theorem mem_revokeOAuthAccessFamily
    (h : key ∈ (revokeOAuthAccessFamily s workspaceKey familyID).keys) :
    ∃ old ∈ s.keys, (key.chain = old.chain ∧ key.refreshFamilyID = old.refreshFamilyID ∧
      key.workspaceKey = old.workspaceKey) ∧ (old.workspaceKey = workspaceKey →
        old.refreshFamilyID = some familyID → key.revokedAt.isSome) := by
  obtain ⟨old, hold, rfl⟩ := mem_map.1 h
  refine ⟨old, hold, ?_⟩
  split
  · exact ⟨⟨rfl, rfl, rfl⟩, fun _ _ => rfl⟩
  · next hnot =>
      refine ⟨⟨rfl, rfl, rfl⟩, fun hworkspace hfamily => ?_⟩
      rw [isSome_iff_ne_none]
      exact fun hnone => hnot ⟨hworkspace, hfamily, hnone⟩

theorem Store.Families.step {a : Label} (h : s.Families) (hvalid : s.Valid)
    (ha : FamilyKnown s a) (hstep : s.step a = some t) : t.Families := by
  have hsameTokens : ∀ row ∈ s.tokens, RowOf s.tokens row := fun row hrow => ⟨row, hrow, rfl, id⟩
  have hsameKeys : ∀ key ∈ s.keys, KeyOf s.keys key := fun key hkey => ⟨key, hkey, rfl, rfl, rfl⟩
  cases a with
  | clock | administer => cases hstep; exact h.shrink hsameTokens hsameKeys fun _ => id
  | authorize code data =>
    simp only [Store.step] at hstep
    split at hstep
    · cases hstep
    · cases hstep
      refine h.shrink hsameTokens hsameKeys ?_
      rintro code' ⟨used, hused, hrest⟩
      exact ⟨used, mem_append_left _ hused, hrest⟩
  | exchange r =>
    obtain ⟨⟨t', response⟩, hexchange, rfl⟩ := map_eq_some_iff.1 hstep
    exact h.exchange hvalid ha (exchanges_of_exchange hexchange)
  | revoke | revokeFamily =>
    cases hstep
    exact h.shrink (fun _ => rowOf_revokeWhere) hsameKeys fun _ => id
  | deleteReplay token =>
    cases hstep
    exact h.shrink (fun row hrow => hsameTokens row (mem_of_mem_filter hrow)) hsameKeys
      fun _ => id
  | revokeAccessFamily workspaceKey familyID =>
    cases hstep
    refine h.shrink hsameTokens (fun key hkey => ?_) fun _ => id
    obtain ⟨old, hold, hsame, -⟩ := mem_revokeOAuthAccessFamily hkey
    exact ⟨old, hold, hsame⟩

theorem Store.Initial.families (h : s.Initial) : s.Families := by
  have hkeys : ∀ key ∈ s.keys, ∀ chain, key.chain ≠ some chain := by
    intro key hkey chain hchain
    rw [h.keys key hkey] at hchain
    cases hchain
  -- at first a chain is one token
  have hcarries : ∀ {chain familyID workspaceKey}, Carries s chain familyID workspaceKey →
      ∃ row ∈ s.tokens, chain = .token row.key ∧ row.data.decode.familyID = some familyID ∧
        row.data.decode.workspaceKey = workspaceKey := by
    rintro chain familyID workspaceKey (⟨row, hrow, hchain, hfacts⟩ | ⟨key, hkey, hchain, -⟩)
    · rw [h.chain hrow] at hchain
      exact ⟨row, hrow, (some.inj hchain).symm, hfacts⟩
    · exact absurd hchain (hkeys key hkey chain)
  constructor
  case unissued =>
    intro row hrow chain hchain hfamily _ familyID workspaceKey hcarry
    obtain ⟨row', hrow', hchain', hfamily', -⟩ := hcarries hcarry
    rw [h.chain hrow, hchain'] at hchain
    rw [h.tokens row' hrow' row hrow (Chain.token.inj (some.inj hchain)).symm, hfamily]
      at hfamily'
    cases hfamily'
  case rooted => exact fun key hkey code hchain => absurd hchain (hkeys key hkey _)
  constructor
  case uniform =>
    intro chain familyID familyID' workspaceKey workspaceKey' hcarry hcarry'
    obtain ⟨row, hrow, hchain, hfamily, hworkspace⟩ := hcarries hcarry
    obtain ⟨row', hrow', hchain', hfamily', hworkspace'⟩ := hcarries hcarry'
    rw [h.tokens row hrow row' hrow' (Chain.token.inj (hchain.symm.trans hchain'))]
      at hfamily hworkspace
    exact ⟨some.inj (hfamily.symm.trans hfamily'), hworkspace.symm.trans hworkspace'⟩
  case token =>
    intro row hrow hprevious
    rw [h.previous hrow] at hprevious
    cases hprevious
  case key =>
    intro key hkey hchain
    rw [h.keys key hkey] at hchain
    cases hchain

/-- All that a chain has issued carries one family, and revoking the access
tokens of that family leaves none of the chain usable. -/
structure Store.Revocable (s : Store) : Prop extends s.OneFamily where
  revoked : ∀ chain familyID workspaceKey, Carries s chain familyID workspaceKey →
    ∀ key ∈ (revokeOAuthAccessFamily s workspaceKey familyID).keys, key.chain = some chain →
      ∀ now, key.usable now = false

theorem Store.OneFamily.revocable (h : s.OneFamily) : s.Revocable := by
  refine ⟨h, fun chain familyID workspaceKey hcarries key hkey hchain now => ?_⟩
  obtain ⟨old, hold, ⟨hchain', -, -⟩, hrevoked⟩ := mem_revokeOAuthAccessFamily hkey
  have holdChain : old.chain = some chain := hchain'.symm.trans hchain
  obtain ⟨familyID', hfamily⟩ :=
    isSome_iff_exists.1 (h.key old hold (by rw [holdChain]; rfl))
  have heq := h.uniform chain _ _ _ _ (Or.inr ⟨old, hold, holdChain, hfamily, rfl⟩) hcarries
  have hspent := hrevoked heq.2 (hfamily.trans (congrArg some heq.1))
  rw [APIKey.usable, isNone_eq_false_iff.2 hspent, Bool.false_and]

/-- **A chain has one family**, in every run without a replay of a token that has no family: all
refresh and access tokens that a chain issues, by rotation or by replay, carry one family, and
revoking its access tokens leaves none of the chain usable. -/
theorem family_of_reaches {s t : Store} (hs : s.Initial)
    (h : Reaches Store.step FamilyKnown s t) : t.Revocable := by
  have hinvariant : t.Valid ∧ t.Families := by
    refine Reaches.invariant (P := fun t => t.Valid ∧ t.Families) ?_ h ⟨hs.valid, hs.families⟩
    intro s a t ⟨hvalid, hfamilies⟩ ha hstep
    exact ⟨hvalid.step hstep, hfamilies.step hvalid ha hstep⟩
  exact hinvariant.2.toOneFamily.revocable

/-- A token without a family is rotated twice, and the second of the three is
presented again. -/
theorem family_after_replay :
    ∃ t, Reaches Store.step FamilyKnown (storeWith none) t ∧
      t.keys.map APIKey.refreshFamilyID =
        replicate 3 (some (.derived (.generated 0) "k1")) ∧ t.Revocable := by
  refine exists_reaches_and
    [.exchange (refreshWith (.generated 0) 1 "k1"), .exchange (refreshWith (.generated 1) 2 "k2"),
      .exchange (refreshWith (.generated 1) 3 "k3")] _ (by decide) fun _ hrun _ => ?_
  exact family_of_reaches (storeWith_initial none) hrun

/-- **A replay leaves the family.** A token without a family is rotated, and presented again:
the two access tokens carry different families, and revoking that of the next refresh token
leaves the second one usable. -/
theorem replay_leaves_family :
    ∃ t, Reaches Store.step Unrestricted (storeWith none) t ∧
      (∃ row ∈ t.tokens, row.data.previous = some (.generated 0) ∧
        row.data.decode.familyID = some (.derived (.generated 0) "k1")) ∧
      (∃ key ∈ (revokeOAuthAccessFamily t "workspace" (.derived (.generated 0) "k1")).keys,
        key.chain = some (.token (.generated 0)) ∧ key.usable t.now = true) ∧ ¬t.Revocable := by
  obtain ⟨t, hrun, hrow, ⟨issued, hissued, hfacts⟩, key, hkey, hchain, husable⟩ :
      ∃ t, Reaches Store.step Unrestricted (storeWith none) t ∧
      ((∃ row ∈ t.tokens, row.data.previous = some (.generated 0) ∧
        row.data.decode.familyID = some (.derived (.generated 0) "k1")) ∧
      (∃ key ∈ t.keys, key.chain = some (.token (.generated 0)) ∧
        key.refreshFamilyID = some (.derived (.generated 0) "k1") ∧
        key.workspaceKey = "workspace") ∧
      (∃ key ∈ (revokeOAuthAccessFamily t "workspace" (.derived (.generated 0) "k1")).keys,
        key.chain = some (.token (.generated 0)) ∧ key.usable t.now = true)) :=
    exists_reaches
      [.exchange (refreshWith (.generated 0) 1 "k1"),
        .exchange (refreshWith (.generated 0) 2 "k2")] _ (by decide)
  refine ⟨t, hrun, hrow, ⟨key, hkey, hchain, husable⟩, fun hrevocable => ?_⟩
  have hunusable :=
    hrevocable.revoked _ _ _ (Or.inr ⟨issued, hissued, hfacts⟩) key hkey hchain t.now
  rw [husable] at hunusable
  cases hunusable

end Flow.Ports.OAuth
