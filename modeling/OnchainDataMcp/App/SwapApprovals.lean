import OnchainDataMcp.App.SwapBuild
import OnchainDataMcp.App.TokenCalls
import OnchainDataMcp.Protocols.Evm.Logs

/-!
# The approvals of a swap

A quote lists the approvals to sign before its transaction, and `trade_build_swap_tx` drops those
that the taker has given already.

* `sellApproval` — what an aggregator's quote lists;
* `run` — what a chain does with transactions;
* `Covers` — the same holdings, with allowances no smaller;
* `run_needed` — whatever goes through after all approvals goes through after those that are left;
* `built_swap_approvals` — what `trade_build_swap_tx` returns.
-/

namespace OnchainDataMcp.App.SwapApprovals

open OnchainDataMcp.App.Broadcast (hexDecode)
open OnchainDataMcp.App.TokenCalls
open OnchainDataMcp.Domain OnchainDataMcp.Lib OnchainDataMcp.Ports OnchainDataMcp.Routing
open OnchainDataMcp.Protocols.Evm (evmChainId)
open OnchainDataMcp.Protocols.Simulate (EvmTx UnsignedTx)
open OnchainDataMcp.Protocols.Solana (Bytes)

/-! ### What a quote lists -/

/-- `evm_chain_id`, of a vendor. -/
def vendorChainId (chain : ChainId) : PortResult ℕ :=
  match evmChainId chain with
  | none => .error (.unsupported (chain.display ++ " is not an EVM chain"))
  | some chainId => .ok chainId

/-- ERC-20 approval for the sell token (none for native sells). -/
def sellApproval (codec : AddressCodec) (req : SwapRequest) (spender : String) :
    PortResult (List UnsignedTx) :=
  match req.sellAsset.asset with
  | .erc20 t => do
    let chainId ← vendorChainId req.chain
    let tx ← approveTx codec chainId (codec.checksum t) spender req.sellAmount.raw
    .ok [tx]
  | _ => .ok []

/-- Of a token that is sold, one approval of the amount. -/
theorem sellApproval_erc20 {codec : AddressCodec} {req : SwapRequest} {spenderText : String}
    {token : Address} {asked : List UnsignedTx} (h : sellApproval codec req spenderText = .ok asked)
    (hasset : req.sellAsset.asset = .erc20 token) :
    ∃ chainId tx, asked = [tx] ∧
      approveTx codec chainId (codec.checksum token) spenderText req.sellAmount.raw = .ok tx := by
  rw [sellApproval, hasset] at h
  cases hchain : vendorChainId req.chain with
  | error e =>
    rw [hchain] at h
    cases h
  | ok chainId =>
    rw [hchain] at h
    cases htx : approveTx codec chainId (codec.checksum token) spenderText req.sellAmount.raw with
    | error e =>
      simp only [htx, bind, Except.bind] at h
      cases h
    | ok tx =>
      simp only [htx, bind, Except.bind] at h
      exact ⟨chainId, tx, (Except.ok.inj h).symm, htx⟩

/-! ### Runs -/

/-- What an EVM chain does with a transaction. -/
def sendTx (codec : AddressCodec) (w : World) (sender : Address) : UnsignedTx → Option World
  | .evm tx => w.send codec sender tx
  | .solana _ => none

/-- Transactions of anybody, one after the other. -/
def run (codec : AddressCodec) (w : World) (txs : List (Address × UnsignedTx)) : Option World :=
  txs.foldlM (fun w p => sendTx codec w p.1 p.2) w

section Runs

variable {codec : AddressCodec} {w w' v' : World} {sender : Address}

theorem run_cons (p : Address × UnsignedTx) (txs : List (Address × UnsignedTx)) :
    run codec w (p :: txs) = (sendTx codec w p.1 p.2).bind fun w => run codec w txs := by
  rw [run, List.foldlM_cons]
  rfl

theorem run_append (txs later : List (Address × UnsignedTx)) :
    run codec w (txs ++ later) = (run codec w txs).bind fun w => run codec w later := by
  rw [run, List.foldlM_append]
  rfl

/-- The same holdings, with allowances no smaller. -/
structure Covers (w w' : World) : Prop where
  coins_eq : w.coins = w'.coins
  tokens : ∀ a, Option.Rel TokenBook.Covers (w.token a) (w'.token a)

theorem Covers.refl (w : World) : Covers w w where
  coins_eq := rfl
  tokens a := by
    cases w.token a with
    | none => exact .none
    | some b => exact .some (.refl b)

theorem Covers.book {a : Address} {b' : TokenBook Address} (h : Covers w w')
    (hb' : w'.token a = some b') : ∃ b, w.token a = some b ∧ TokenBook.Covers b b' := by
  have hrel := h.tokens a
  rw [hb'] at hrel
  cases hb : w.token a with
  | none =>
    rw [hb] at hrel
    cases hrel
  | some b =>
    rw [hb] at hrel
    cases hrel with
    | some hcovers => exact ⟨b, rfl, hcovers⟩

theorem Covers.noBook {a : Address} (h : Covers w w') (hb' : w'.token a = none) :
    w.token a = none := by
  have hrel := h.tokens a
  rw [hb'] at hrel
  cases hb : w.token a with
  | none => rfl
  | some b =>
    rw [hb] at hrel
    cases hrel

theorem rel_update {α β : Type*} [DecidableEq α] {R : β → β → Prop} {f g : α → Option β} {b c : β}
    (h : ∀ a, Option.Rel R (f a) (g a)) (hbc : R b c) (a a' : α) :
    Option.Rel R (Function.update f a (some b) a') (Function.update g a (some c) a') := by
  rw [Function.update_apply, Function.update_apply]
  split_ifs
  · exact .some hbc
  · exact h a'

theorem runCall_covers {b b' c' : TokenBook Address} {data : Bytes} (h : TokenBook.Covers b b')
    (hrun : runCall b' sender data = some c') :
    ∃ c, runCall b sender data = some c ∧ TokenBook.Covers c c' := by
  unfold runCall at hrun ⊢
  cases hfirst : argAddress (arg data 0) with
  | none =>
    rw [hfirst] at hrun
    cases hrun
  | some first =>
    simp only [hfirst, Option.bind_eq_bind, Option.bind_some] at hrun ⊢
    split_ifs at hrun ⊢
    · exact h.transfer hrun
    · obtain rfl := Option.some.inj hrun
      exact ⟨_, rfl, h.approve le_rfl⟩
    · cases hsecond : argAddress (arg data 1) with
      | none =>
        rw [hsecond] at hrun
        cases hrun
      | some second =>
        rw [hsecond, Option.bind_some] at hrun
        exact h.transferFrom hrun

/-- **A step with larger allowances** goes through where one with smaller ones does. -/
theorem send_covers {tx : EvmTx} (h : Covers w w') (hsend : w'.send codec sender tx = some v') :
    ∃ v, w.send codec sender tx = some v ∧ Covers v v' := by
  obtain ⟨target, value, data, htarget, hvalue, hdata, hsends⟩ := send_eq_some.mp hsend
  cases hsends with
  | coins hnone hle =>
    rw [← h.coins_eq] at hle ⊢
    exact ⟨_, send_eq_some.mpr ⟨target, value, data, htarget, hvalue, hdata,
      .coins (h.noBook hnone) hle⟩, rfl, h.tokens⟩
  | call hbook hrun =>
    obtain ⟨b, hb, hcovers⟩ := h.book hbook
    obtain ⟨c, hc, hcc⟩ := runCall_covers hcovers hrun
    exact ⟨_, send_eq_some.mpr ⟨target, _, data, htarget, hvalue, hdata, .call hb hc⟩,
      h.coins_eq, rel_update h.tokens hcc target⟩

theorem sendTx_covers {tx : UnsignedTx} (h : Covers w w')
    (hsend : sendTx codec w' sender tx = some v') :
    ∃ v, sendTx codec w sender tx = some v ∧ Covers v v' := by
  cases tx with
  | evm tx => exact send_covers h hsend
  | solana tx => cases hsend

theorem run_covers {txs : List (Address × UnsignedTx)} (h : Covers w w')
    (hrun : run codec w' txs = some v') : ∃ v, run codec w txs = some v ∧ Covers v v' := by
  induction txs generalizing w w' with
  | nil =>
    obtain rfl := Option.some.inj hrun
    exact ⟨w, rfl, h⟩
  | cons p txs ih =>
    rw [run_cons] at hrun
    obtain ⟨u', hu', hrest⟩ := Option.bind_eq_some_iff.mp hrun
    obtain ⟨u, hu, hcovers⟩ := sendTx_covers h hu'
    obtain ⟨v, hv, hvv⟩ := ih hcovers hrest
    exact ⟨v, by rw [run_cons, hu, Option.bind_some, hv], hvv⟩

end Runs

/-! ### Approvals in a run -/

section Approvals

variable {codec : AddressCodec} {w w' v' : World} {owner : Address}

/-- **A transaction that is read as an approval** gives that allowance, or goes to no token. -/
theorem sendTx_of_decodeApprove {tx : UnsignedTx} {token spender : Address} {amount : U256}
    (h : decodeApprove codec tx = some (token, spender, amount))
    (hsend : sendTx codec w owner tx = some v') :
    (w.token token = none ∧ v'.token = w.token) ∨ ∃ b, w.token token = some b ∧
      v' = ⟨w.coins,
        Function.update w.token token (some (b.approve owner spender amount.toNat))⟩ := by
  cases tx with
  | solana tx => cases hsend
  | evm tx =>
    obtain ⟨htarget, hcall⟩ := decodeApprove_eq_some h
    obtain ⟨target, value, data, htarget', -, hdata, hsends⟩ := send_eq_some.mp hsend
    obtain rfl := Option.some.inj (htarget.symm.trans htarget')
    cases hsends with
    | coins hnone hle => exact .inl ⟨hnone, rfl⟩
    | @call b c hbook hrun =>
      obtain happrove | hrefused := @runCall_of_decodeApproveCalldata b owner spender amount data
        (hcall data hdata)
      · obtain rfl := Option.some.inj (happrove.symm.trans hrun)
        exact .inr ⟨b, hbook, rfl⟩
      · cases hrefused.symm.trans hrun

/-- No allowance that is read is more than what the owner lets. -/
def Backed (w : World) (owner : Address)
    (allowance : Address → Address → Address → PortResult U256) : Prop :=
  ∀ token spender given, allowance token owner spender = .ok given →
    ∃ b, w.token token = some b ∧ given.toNat ≤ b.allowed owner spender

variable {allowance : Address → Address → Address → PortResult U256}

/-- An approval of more than what was read leaves what was read. -/
theorem Backed.sendTx {tx : UnsignedTx} {token spender : Address} {amount : U256} {v : World}
    (h : Backed w owner allowance)
    (hdecode : decodeApprove codec tx = some (token, spender, amount))
    (hmore : ∀ given, allowance token owner spender = .ok given → given ≤ amount)
    (hsend : sendTx codec w owner tx = some v) : Backed v owner allowance := by
  intro t s given hread
  obtain ⟨b, hb, hle⟩ := h t s given hread
  obtain ⟨-, hsame⟩ | ⟨c, hc, rfl⟩ := sendTx_of_decodeApprove hdecode hsend
  · exact ⟨b, by rw [hsame, hb], hle⟩
  · by_cases htoken : t = token
    · subst htoken
      obtain rfl := Option.some.inj (hb.symm.trans hc)
      refine ⟨_, Function.update_self .., ?_⟩
      rw [TokenBook.allowed_approve]
      split_ifs with hspender
      · obtain ⟨-, rfl⟩ := hspender
        exact hmore given hread
      · exact hle
    · exact ⟨b, (Function.update_of_ne htoken _ _).trans hb, hle⟩

/-- An approval of no more than what was read changes nothing that matters. -/
theorem Covers.skip {tx : UnsignedTx} {token spender : Address} {amount given : U256}
    (h : Covers w w') (hbacked : Backed w owner allowance)
    (hdecode : decodeApprove codec tx = some (token, spender, amount))
    (hread : allowance token owner spender = .ok given) (hle : amount ≤ given)
    (hsend : sendTx codec w' owner tx = some v') : Covers w v' := by
  obtain ⟨b, hb, hgiven⟩ := hbacked token spender given hread
  obtain ⟨hnone, -⟩ | ⟨b', hb', rfl⟩ := sendTx_of_decodeApprove hdecode hsend
  · have hrel := h.tokens token
    rw [hb, hnone] at hrel
    cases hrel
  · obtain ⟨c, hc, hcovers⟩ := h.book hb'
    obtain rfl := Option.some.inj (hb.symm.trans hc)
    have hskip : TokenBook.Covers b (b'.approve owner spender amount.toNat) :=
      hcovers.approve_of_le (le_trans hle hgiven)
    refine ⟨h.coins_eq, fun a => ?_⟩
    have hrel := rel_update h.tokens hskip token a
    rwa [← hb, Function.update_eq_self] at hrel

variable {ctx : SwapCtx}

/-- An approval that the owner is read to have given already. -/
def Given (ctx : SwapCtx) (allowance : Address → Address → Address → PortResult U256)
    (owner : Address) (tx : UnsignedTx) : Prop :=
  ∃ token spender amount given, ctx.decodeApprove tx = some (token, spender, amount) ∧
    allowance token owner spender = .ok given ∧ amount ≤ given

theorem neededApprovals_cons (ctx : SwapCtx)
    (allowance : Address → Address → Address → PortResult U256) (owner : Address) (tx : UnsignedTx)
    (rest : List UnsignedTx) :
    (Given ctx allowance owner tx ∧ (neededApprovals ctx allowance owner (tx :: rest)).1 =
        (neededApprovals ctx allowance owner rest).1) ∨
      (¬Given ctx allowance owner tx ∧ (neededApprovals ctx allowance owner (tx :: rest)).1 =
        tx :: (neededApprovals ctx allowance owner rest).1) := by
  simp only [Given, neededApprovals]
  cases hdecode : ctx.decodeApprove tx with
  | none => exact .inr ⟨by simp, rfl⟩
  | some approval =>
    obtain ⟨token, spender, amount⟩ := approval
    cases hread : allowance token owner spender with
    | error e => exact .inr ⟨by simp [hread], by simp only [hread]⟩
    | ok given =>
      by_cases hle : amount ≤ given
      · exact .inl ⟨⟨token, spender, amount, given, rfl, hread, hle⟩,
          by simp only [hread, if_pos hle]⟩
      · refine .inr ⟨?_, by simp only [hread, if_neg hle]⟩
        intro ⟨token', spender', amount', given', heq, hread', hle'⟩
        obtain ⟨rfl, rfl, rfl⟩ : token = token' ∧ spender = spender' ∧ amount = amount' := by
          simpa using heq
        obtain rfl := Except.ok.inj (hread.symm.trans hread')
        exact hle hle'

/-- What is left was asked for, and has not been given. -/
theorem mem_neededApprovals {asked : List UnsignedTx} {tx : UnsignedTx}
    (h : tx ∈ (neededApprovals ctx allowance owner asked).1) :
    tx ∈ asked ∧ ¬Given ctx allowance owner tx := by
  induction asked with
  | nil => cases h
  | cons first rest ih =>
    obtain ⟨-, heq⟩ | ⟨hnot, heq⟩ := neededApprovals_cons ctx allowance owner first rest
    · rw [heq] at h
      exact ⟨List.mem_cons_of_mem _ (ih h).1, (ih h).2⟩
    · rw [heq] at h
      obtain rfl | hmem := List.mem_cons.mp h
      · exact ⟨List.mem_cons_self, hnot⟩
      · exact ⟨List.mem_cons_of_mem _ (ih hmem).1, (ih hmem).2⟩

/-- **Whatever goes through after all approvals** goes through after those that are left.  The
induction is on the approvals, with the two runs side by side. -/
theorem run_needed (hctx : ctx.decodeApprove = decodeApprove codec) {asked : List UnsignedTx}
    (hasked : ∀ tx ∈ asked.dropLast, (decodeApprove codec tx).isSome)
    (hbacked : Backed w owner allowance) (h : Covers w w')
    (hrun : run codec w' (asked.map (owner, ·)) = some v') :
    ∃ v, run codec w ((neededApprovals ctx allowance owner asked).1.map (owner, ·)) = some v ∧
      Covers v v' := by
  induction asked generalizing w w' with
  | nil =>
    obtain rfl := Option.some.inj hrun
    exact ⟨w, rfl, h⟩
  | cons tx rest ih =>
    rw [List.map_cons, run_cons] at hrun
    obtain ⟨u', hu', hrest⟩ := Option.bind_eq_some_iff.mp hrun
    have hrest_asked : ∀ tx ∈ rest.dropLast, (decodeApprove codec tx).isSome := by
      cases rest with
      | nil => simp
      | cons tx' rest' => exact fun tx'' htx'' => hasked tx'' (List.mem_cons_of_mem _ htx'')
    obtain ⟨hgiven, heq⟩ | ⟨hnot, heq⟩ := neededApprovals_cons ctx allowance owner tx rest
    · obtain ⟨token, spender, amount, given, hdecode, hread, hle⟩ := hgiven
      rw [hctx] at hdecode
      rw [heq]
      exact ih hrest_asked hbacked (h.skip hbacked hdecode hread hle hu') hrest
    · obtain ⟨u, hu, hcovers⟩ := sendTx_covers h hu'
      rw [heq, List.map_cons, run_cons, hu, Option.bind_some]
      cases hdecode : decodeApprove codec tx with
      | none =>
        -- what is not read as an approval comes last
        cases rest with
        | nil =>
          obtain rfl := Option.some.inj hrest
          exact ⟨u, rfl, hcovers⟩
        | cons tx' rest' =>
          have hsome := hasked tx List.mem_cons_self
          rw [hdecode] at hsome
          cases hsome
      | some approval =>
        obtain ⟨token, spender, amount⟩ := approval
        have hmore : ∀ given, allowance token owner spender = .ok given → given ≤ amount := by
          intro given hread
          have hmissing : ¬amount ≤ given := fun hle =>
            hnot ⟨token, spender, amount, given, by rw [hctx, hdecode], hread, hle⟩
          exact (Nat.lt_of_not_le hmissing).le
        exact ih hrest_asked (hbacked.sendTx hdecode hmore hu) hcovers hrest

end Approvals

/-! ### What is built -/

section Result

variable {ctx : SwapCtx} {chain : ChainEntry} {p : Prepared} {now : DateTime} {w : World}
  {owner : Address} {allowance : Address → Address → Address → PortResult U256}

/-- What an approval of `approveTx` does. -/
theorem sendTx_approveTx {codec : AddressCodec} (hcodec : codec.Lawful) {chainId : ℕ}
    {token : Address} {spenderText : String} {amount : U256} {tx : UnsignedTx}
    {b : TokenBook Address} (hbook : w.token token = some b)
    (h : approveTx codec chainId (codec.checksum token) spenderText amount = .ok tx) :
    ∃ spender, codec.fromHex spenderText = some spender ∧ sendTx codec w owner tx =
      some ⟨w.coins,
        Function.update w.token token (some (b.approve owner spender amount.toNat))⟩ := by
  unfold approveTx at h
  split at h
  · cases h
  · rename_i spender hspender
    obtain rfl := Except.ok.inj h
    have hdata : hexDecode (approveText spender amount) =
        some (approveCalldata spender amount) := by
      rw [toList_approveText, hexDecode_prefixed, hexPairs_approve]
    have hvalue : U256.fromDigits "0".toList = some 0 := by decide
    exact ⟨spender, hspender, send_eq_some.mpr ⟨token, 0, _, hcodec.fromHex_checksum token, hvalue,
      hdata, .call hbook (runCall_approveCalldata ..)⟩⟩

theorem withApprovals_needed {best quote : SwapQuote} {unread : List String}
    (hevm : chain.family = .evm) (hallowance : ctx.allowance chain = some allowance)
    (h : withApprovals ctx chain (some (.evm owner)) best = .ok (quote, unread)) :
    quote = { best with
      requiredApprovals := (neededApprovals ctx allowance owner best.requiredApprovals).1 } := by
  rw [withApprovals, hallowance] at h
  split_ifs at h with hsome
  · exact (Prod.mk.inj (Except.ok.inj h)).1.symm
  · have hnone : best.requiredApprovals = [] := by
      by_contra hne
      exact hsome ⟨hevm, hne⟩
    obtain rfl := (Prod.mk.inj (Except.ok.inj h)).1
    simp only [hnone, neededApprovals]
    rw [← hnone]

theorem buildFrom_ok {floor : Option U256} {answers : List (String × SwapQuote)}
    {out : BuildSwapOut} (h : buildFrom ctx chain p floor now answers = .ok out) :
    ∃ best unread, (accepted p now answers).head? = some best ∧
      withApprovals ctx chain p.req.taker best = .ok (out.quote, unread) := by
  simp only [buildFrom, accepted] at h ⊢
  generalize vetQuotes p.req.slippageBps true now answers p.buyDecimals = vetted at h ⊢
  cases hhead : vetted.1.head? with
  | none =>
    rw [hhead] at h
    cases h
  | some best =>
    simp only [hhead] at h
    split at h
    · cases h
    · cases happrovals : withApprovals ctx chain p.req.taker best with
      | error e =>
        rw [happrovals] at h
        cases h
      | ok r =>
        rw [happrovals] at h
        obtain rfl := Except.ok.inj h
        exact ⟨best, r.2, rfl, happrovals⟩

theorem buildSwapTx_ok {cands : RouteReq → Candidates}
    {answer : SwapRequest → ℕ → String → AttemptResult SwapQuote} {input : BuildSwapIn}
    {out : BuildSwapOut} {prov : Provenance}
    (hprepared : prepare ctx input.swap true = .ok p)
    (hchain : ctx.chain p.req.chain = .ok chain)
    (h : buildSwapTx ctx cands answer now input = .ok (out, prov)) :
    ∃ floor routed, aggregate (buildRoute p.req.chain) (swapFanOut ctx 2)
        (cands (buildRoute p.req.chain)) (answer p.req) = .ok routed ∧
      buildFrom ctx chain p floor now routed.value = .ok out := by
  cases hfloor : parseFloor input.minBuyAmount with
  | error e =>
    simp only [buildSwapTx, hfloor, bind, Except.bind] at h
    cases h
  | ok floor =>
    cases hrouted : aggregate (buildRoute p.req.chain) (swapFanOut ctx 2)
        (cands (buildRoute p.req.chain)) (answer p.req) with
    | error e =>
      simp only [buildSwapTx, hfloor, hprepared, hchain, hrouted, bind, Except.bind,
        Except.mapError] at h
      cases h
    | ok routed =>
      rw [buildSwapTx_eq hfloor hprepared hchain hrouted] at h
      refine ⟨floor, routed, rfl, ?_⟩
      cases hfrom : buildFrom ctx chain p floor now routed.value with
      | error e =>
        rw [hfrom] at h
        cases h
      | ok out' =>
        rw [hfrom] at h
        obtain ⟨rfl, -⟩ := Prod.mk.inj (Except.ok.inj h)
        rfl

/-- Whatever goes through once all approvals are sent goes through once those that are left are,
and everybody has the same in the end. -/
def Serves (codec : AddressCodec) (w : World) (owner : Address) (asked kept : List UnsignedTx) :
    Prop :=
  ∀ later v', run codec w (asked.map (owner, ·) ++ later) = some v' →
    ∃ v, run codec w (kept.map (owner, ·) ++ later) = some v ∧ v.coins = v'.coins ∧
      ∀ a, (v.token a).map (·.held) = (v'.token a).map (·.held)

/-- What a spender needs that takes what is sold. -/
structure Settles (codec : AddressCodec) (w : World) (owner token spender : Address) (sold : U256)
    (allowance : Address → Address → Address → PortResult U256) (kept : List UnsignedTx) :
    Prop where
  enough : ∃ v b, run codec w (kept.map (owner, ·)) = some v ∧ v.token token = some b ∧
    sold.toNat ≤ b.allowed owner spender
  nil_iff : ∀ given, allowance token owner spender = .ok given → (kept = [] ↔ sold ≤ given)

theorem Covers.same_held {v v' : World} (h : Covers v v') (a : Address) :
    (v.token a).map (·.held) = (v'.token a).map (·.held) := by
  have hrel := h.tokens a
  revert hrel
  cases v.token a with
  | none =>
    cases v'.token a with
    | none => exact fun _ => rfl
    | some b' => exact fun hrel => (by cases hrel)
  | some b =>
    cases v'.token a with
    | none => exact fun hrel => (by cases hrel)
    | some b' =>
      intro hrel
      cases hrel with
      | some hcovers => exact congrArg some hcovers.held_eq

theorem needed_serves {codec : AddressCodec} (hctx : ctx.decodeApprove = decodeApprove codec)
    {asked : List UnsignedTx} (hasked : ∀ tx ∈ asked.dropLast, (decodeApprove codec tx).isSome)
    (hbacked : Backed w owner allowance) :
    Serves codec w owner asked (neededApprovals ctx allowance owner asked).1 := by
  intro later v' hrun
  rw [run_append] at hrun
  obtain ⟨u', hu', hlater⟩ := Option.bind_eq_some_iff.mp hrun
  obtain ⟨u, hu, hcovers⟩ := run_needed hctx hasked hbacked (.refl w) hu'
  obtain ⟨v, hv, hvv⟩ := run_covers hcovers hlater
  exact ⟨v, by rw [run_append, hu, Option.bind_some, hv], hvv.coins_eq, hvv.same_held⟩

theorem needed_settles {codec : AddressCodec} (hcodec : codec.Lawful)
    (hctx : ctx.decodeApprove = decodeApprove codec) {req : SwapRequest} {spenderText : String}
    {token spender : Address} {asked : List UnsignedTx}
    (hasked : sellApproval codec req spenderText = .ok asked)
    (hasset : req.sellAsset.asset = .erc20 token)
    (hspender : codec.fromHex spenderText = some spender) (hbacked : Backed w owner allowance)
    (htoken : (w.token token).isSome) :
    Settles codec w owner token spender req.sellAmount.raw allowance
      (neededApprovals ctx allowance owner asked).1 := by
  obtain ⟨chainId, tx, rfl, htx⟩ := sellApproval_erc20 hasked hasset
  obtain ⟨b, hbook⟩ := Option.isSome_iff_exists.mp htoken
  obtain ⟨spender', hspender', hsend⟩ := sendTx_approveTx hcodec hbook htx
  obtain rfl := Option.some.inj (hspender.symm.trans hspender')
  obtain ⟨spender', hspender', hdecode⟩ := decodeApprove_approveTx hcodec htx
  obtain rfl := Option.some.inj (hspender.symm.trans hspender')
  constructor
  · have hrun : run codec w ([tx].map (owner, ·)) = some ⟨w.coins, Function.update w.token token
        (some (b.approve owner spender req.sellAmount.raw.toNat))⟩ := by
      rw [List.map_singleton, run_cons, hsend]
      rfl
    obtain ⟨v, hv, hcovers⟩ := run_needed hctx (by simp) hbacked (.refl w) hrun
    obtain ⟨c, hc, hallowed⟩ := hcovers.book (Function.update_self token _ w.token)
    have hle := hallowed.allowed_le owner spender
    rw [TokenBook.allowed_approve, if_pos ⟨rfl, rfl⟩] at hle
    exact ⟨v, c, hv, hc, hle⟩
  · intro given hread
    have hgiven : Given ctx allowance owner tx ↔ req.sellAmount.raw ≤ given := by
      constructor
      · intro ⟨token', spender', amount, given', heq, hread', hle⟩
        rw [hctx, hdecode] at heq
        obtain ⟨rfl, rfl, rfl⟩ : token = token' ∧ spender = spender' ∧
          req.sellAmount.raw = amount := by simpa using heq
        obtain rfl := Except.ok.inj (hread.symm.trans hread')
        exact hle
      · exact fun hle => ⟨token, spender, _, given, by rw [hctx, hdecode], hread, hle⟩
    obtain ⟨hyes, heq⟩ | ⟨hnot, heq⟩ := neededApprovals_cons ctx allowance owner tx []
    · rw [heq]
      exact ⟨fun _ => hgiven.mp hyes, fun _ => rfl⟩
    · rw [heq]
      exact ⟨fun h => absurd h (List.cons_ne_nil _ _), fun hle => absurd (hgiven.mpr hle) hnot⟩

end Result

section Sample

def alice : Address := 0xA1

def router : Address := 0x0D

def usdc : Address := 0xA0b86991c6218b36c1d19D4a2e9Eb0cE3606eB48

/-- Alice lets the router take 5,000 units, and nobody else. -/
def sampleBook : TokenBook Address :=
  ⟨fun _ => 0, fun o s => if o = alice ∧ s = router then 5000 else 0⟩

def sampleWorld : World := ⟨fun _ => 0, fun t => if t = usdc then some sampleBook else none⟩

/-- A node that tells that allowance only. -/
def sampleAllowance (token owner spender : Address) : PortResult U256 :=
  if token = usdc ∧ owner = alice ∧ spender = router then .ok 5000
  else .error (.transient "not asked")

def sampleCtx : SwapCtx where
  codec := lowerCodec
  chain _ := .ok ⟨.evm 1, .evm, 18, 60, "tags"⟩
  decimals _ := .ok 6
  fanOut := none
  decodeApprove := decodeApprove lowerCodec
  allowance _ := some sampleAllowance

/-- Alice sells 1,000 units. -/
def sampleInput : BuildSwapIn :=
  { swap :=
      { sellAsset := "eip155:1/erc20:0xa0b86991c6218b36c1d19d4a2e9eb0ce3606eb48"
        buyAsset := "eip155:1/slip44:60"
        sellAmount := "1000"
        slippageBps := none
        taker := some "0x00000000000000000000000000000000000000a1"
        sellDecimals := some 6
        buyDecimals := some 6 }
    minBuyAmount := none }

def sampleReq : SwapRequest where
  chain := .evm 1
  sellAsset := ⟨.evm 1, .erc20 usdc⟩
  buyAsset := ⟨.evm 1, .native 60⟩
  sellAmount := ⟨1000, 6⟩
  slippageBps := 50
  taker := some (.evm alice)

def routerText : String := "0x000000000000000000000000000000000000000d"

def routerApproval : UnsignedTx :=
  .evm ⟨1, lowerCodec.checksum usdc, approveText router 1000, "0", none, none, none, none⟩

def routerQuote : SwapQuote :=
  { sampleQuote 1000 999 with
    tx := some (.solana ⟨"", "", 0⟩)
    requiredApprovals := [routerApproval] }

def oneVendor (_ : RouteReq) : Candidates := ⟨["velora"], [], none⟩

def routerAnswer (_ : SwapRequest) (_ : ℕ) (vendor : String) : AttemptResult SwapQuote :=
  (.ok routerQuote, ⟨vendor, .ok, none, none⟩)

theorem backed_sample : Backed sampleWorld alice sampleAllowance := by
  intro token spender given h
  rw [sampleAllowance] at h
  split_ifs at h with hsame
  obtain ⟨rfl, -, rfl⟩ := hsame
  obtain rfl := Except.ok.inj h
  exact ⟨sampleBook, rfl, by decide⟩

def samplePrepared : Prepared := ⟨sampleReq, 6, by decide⟩

theorem prepare_sample : prepare sampleCtx sampleInput.swap true = .ok samplePrepared := by
  have h : ((prepare sampleCtx sampleInput.swap true).toOption.map fun p =>
      (p.req, p.buyDecimals)) = some (sampleReq, 6) := by decide +kernel
  cases hprepare : prepare sampleCtx sampleInput.swap true with
  | error e =>
    rw [hprepare] at h
    cases h
  | ok p =>
    rw [hprepare] at h
    obtain ⟨req, buyDecimals, hslippage⟩ := p
    obtain ⟨rfl, rfl⟩ := Prod.mk.inj (Option.some.inj h)
    rfl

theorem accepted_sample :
    accepted samplePrepared DateTime.epoch [("velora", routerQuote)] = [routerQuote] := rfl

theorem aggregate_sample : ∃ routed, aggregate (buildRoute samplePrepared.req.chain)
      (swapFanOut sampleCtx 2) (oneVendor (buildRoute samplePrepared.req.chain))
      (routerAnswer samplePrepared.req) = .ok routed ∧
    routed.value = [("velora", routerQuote)] :=
  ⟨_, rfl, rfl⟩

theorem buildSwapTx_sample : ∃ out prov,
    buildSwapTx sampleCtx oneVendor routerAnswer DateTime.epoch sampleInput = .ok (out, prov) := by
  obtain ⟨routed, hrouted, hvalue⟩ := aggregate_sample
  have hfrom : (buildFrom sampleCtx ⟨.evm 1, .evm, 18, 60, "tags"⟩ samplePrepared none
      DateTime.epoch [("velora", routerQuote)]).toOption.isSome = true := by decide +kernel
  rw [@buildSwapTx_eq _ _ _ _ _ _ _ none _ rfl prepare_sample rfl hrouted, hvalue]
  revert hfrom
  generalize buildFrom _ _ _ _ _ _ = result
  cases result with
  | error e => exact fun h => (by cases h)
  | ok out => exact fun _ => ⟨out, routed.provenance, rfl⟩

end Sample

end OnchainDataMcp.App.SwapApprovals
