import OnchainDataMcp.App.Deposits
import OnchainDataMcp.Lib.Paging
import OnchainDataMcp.Lib.Runs

/-!
# Polling for deposits

A caller lists the deposits of the same addresses again and again, and hands back the cursor of each
page under the page's address.  Between the calls vendors come and go.  What a call finds is a
`Round`; the state is the answers so far, newest first, and a call that fails adds none.

* `cursorsFrom` — the cursors that are handed back;
* `CallResumes` — every lookup continues the page before it, at the vendor that issued its cursor;
* `Steady` — when it does;
* `Chained` / `NothingSkipped` — what that makes of a run;
* `polling_resumes` — runs of steady calls, and only they, resume throughout.
-/

namespace OnchainDataMcp.App

open OnchainDataMcp.Domain OnchainDataMcp.Ports OnchainDataMcp.Routing OnchainDataMcp.Lib
open OnchainDataMcp.Lib.Paging OnchainDataMcp.Lib.Runs

/-! ### The caller -/

/-- The cursors handed back: each page's under its address.  A later page of an address replaces an
earlier one. -/
def cursorsFrom : List AddressPage → String → Option String
  | [], _ => none
  | page :: rest, key =>
    match cursorsFrom rest key with
    | some c => some c
    | none => if page.address = key then page.nextCursor else none

theorem exists_page_of_cursorsFrom {pages : List AddressPage} {key c : String}
    (h : cursorsFrom pages key = some c) :
    ∃ page ∈ pages, page.address = key ∧ page.nextCursor = some c := by
  induction pages with
  | nil => cases h
  | cons page rest ih =>
    rw [cursorsFrom] at h
    cases hrest : cursorsFrom rest key with
    | some c' =>
      rw [hrest] at h
      cases h
      obtain ⟨later, hmem, hlater⟩ := ih hrest
      exact ⟨later, List.mem_cons_of_mem _ hmem, hlater⟩
    | none =>
      simp only [hrest] at h
      split at h
      · exact ⟨page, List.mem_cons_self, by assumption, h⟩
      · cases h

theorem nextCursor_of_cursorsFrom {pages : List AddressPage} {key : String}
    (h : cursorsFrom pages key = none) {page : AddressPage} (hpage : page ∈ pages)
    (haddress : page.address = key) : page.nextCursor = none := by
  induction pages with
  | nil => cases hpage
  | cons first rest ih =>
    rw [cursorsFrom] at h
    cases hrest : cursorsFrom rest key with
    | some c' => rw [hrest] at h; cases h
    | none =>
      simp only [hrest] at h
      cases hpage with
      | head => rwa [if_pos haddress] at h
      | tail _ hlater => exact ih hrest hlater

/-- A call that was answered. -/
structure Answer where
  tokens : List StablecoinEntry
  scans : List Scan
  deriving DecidableEq, Repr

namespace Scan

def next (s : Scan) : Option String := s.routed.value.nextCursor

/-- The vendor that served the page, which issued its cursor. -/
def provider (s : Scan) : Option String := s.routed.provenance.provider

end Scan

namespace DepositDesk

variable (desk : DepositDesk) (base : ListDepositsIn)

/-- The pages the caller sees. -/
def pages (a : Answer) : List AddressPage := a.scans.map (desk.addressPage a.tokens)

/-- The call after an answer, or the first one. -/
def nextInput (last : Option Answer) : ListDepositsIn :=
  { base with
    cursors := cursorsFrom (last.elim [] desk.pages) }

/-- What is asked for the address `raw` after `a`. -/
def nextQuery (a : Answer) (tokens : List StablecoinEntry) (raw : String) (owner : AccountAddress) :
    TransferQuery :=
  depositQuery (desk.nextInput base (some a)) tokens raw owner

/-- One call.  It tells the answer before it and what it found. -/
def pollStep (history : List Answer) (round : Round) :
    Option (List Answer × List (Option Answer × Round)) :=
  match desk.scans (desk.nextInput base history.head?) round with
  | .ok (tokens, scans) => some (⟨tokens, scans⟩ :: history, [(history.head?, round)])
  | .error _ => some (history, [(history.head?, round)])

/-! ### Resuming -/

/-- The lookup of `raw` at index `i` continues the page `p`: it has the page's cursor, and where
there is one nobody but the vendor that served the page is asked.  A page cannot report a restart,
so there is no other way. -/
structure Continues (a : Answer) (round : Round) (tokens : List StablecoinEntry) (i : ℕ)
    (raw : String) (p : Scan) : Prop where
  cursor : (desk.nextQuery base a tokens raw p.owner).cursor = p.next
  issuer : p.next ≠ none → ∀ v, p.provider = some v →
    ∀ place u, (desk.candidatesFor round i).list[place]? = some u →
      ReachedAt (fun place v => round.call i place v (desk.nextQuery base a tokens raw p.owner))
        (desk.candidatesFor round i).list place → u = v

/-- Every address whose page stands in the answer before the call is continued. -/
def CallResumes (a : Answer) (round : Round) : Prop :=
  ∀ tokens, desk.resolveTokens base.tokens = .ok tokens →
    ∀ i raw, base.addresses[i]? = some raw → ∀ p ∈ a.scans, desk.parse raw = .ok p.owner →
      desk.Continues base a round tokens i raw p

/-- An address with more to read is spelled as in its page, the pages of one address have one
cursor, and the issuer of a cursor comes first and does not pass on to others. -/
structure Steady (a : Answer) (round : Round) : Prop where
  spelled : ∀ raw ∈ base.addresses, ∀ p ∈ a.scans, desk.parse raw = .ok p.owner → p.next ≠ none →
    raw = desk.display p.owner
  agree : ∀ p ∈ a.scans, ∀ q ∈ a.scans, p.owner = q.owner → p.next = q.next
  issuer : ∀ tokens, desk.resolveTokens base.tokens = .ok tokens →
    ∀ i raw, base.addresses[i]? = some raw → ∀ p ∈ a.scans, desk.parse raw = .ok p.owner →
      p.next ≠ none → ∀ v, p.provider = some v →
        StaysWith v (desk.candidatesFor round i).list fun place u =>
          round.call i place u (desk.nextQuery base a tokens raw p.owner)

/-! ### What a run adds up to -/

/-- The later answer continues the earlier one, page by page. -/
structure Follows (earlier later : Answer) : Prop where
  tokens : later.tokens = earlier.tokens
  page : ∀ (k : ℕ) s, later.scans[k]? = some s → ∃ p, earlier.scans[k]? = some p ∧
    s.owner = p.owner ∧ s.query = { p.query with cursor := p.next } ∧
    (p.next ≠ none → s.provider = p.provider)

/-- The first answer starts at the top, and each later one follows the one before. -/
def Chained : List Answer → Prop
  | [] => True
  | [first] => ∀ s ∈ first.scans, s.query.cursor = none
  | later :: earlier :: rest => Follows earlier later ∧ Chained (earlier :: rest)

/-- The deposits of the address at index `k` since it was last read from the top. -/
def received (k : ℕ) : List Answer → List Deposit
  | [] => []
  | a :: rest =>
    match a.scans[k]? with
    | none => []
    | some s => (if s.query.cursor = none then [] else received k rest) ++
        canonicalDeposits s.routed.value.items s.owner a.tokens

/-- What each vendor has to list. -/
abbrev Listing := String → TransferQuery → Except ProviderError (Page Transfer)

/-- What is answered in a round comes from the listing; who answers, and when, is open. -/
def AnswersFrom (listing : Listing) (round : Round) : Prop :=
  ∀ i place v query page, (round.call i place v query).1 = .ok page → listing v query = .ok page

/-- The listing of one vendor for a query, as pages. -/
def listed (listing : Listing) (v : String) (query : TransferQuery) (c : Option String) :
    Except ProviderError (List Transfer × Option String) :=
  (listing v { query with cursor := c }).map fun page => (page.items, page.nextCursor)

/-- What was received of an address are the deposits of pages that one vendor lists one after the
other; of all its pages, when no cursor is left. -/
def NothingSkipped (listing : Listing) (history : List Answer) : Prop :=
  ∀ a, history.head? = some a → ∀ (k : ℕ) s, a.scans[k]? = some s →
    ∃ v pages, s.provider = some v ∧ Trail (listed listing v s.query) pages s.next ∧
      (s.next = none → Pages (listed listing v s.query) none pages) ∧
      received k history = canonicalDeposits pages.flatten s.owner a.tokens

/-- Polling resumes where it stopped. -/
structure PollsOn (tr : List (Option Answer × Round)) (history : List Answer) : Prop where
  resumed : ∀ e ∈ tr, ∀ a, e.1 = some a → desk.CallResumes base a e.2
  chained : Chained history
  complete : ∀ listing, (∀ e ∈ tr, AnswersFrom listing e.2) → NothingSkipped listing history

/-! ### One call -/

/-- What the codec guarantees holds of the addresses that are polled. -/
def Legible : Prop :=
  ∀ raw ∈ base.addresses, ∀ owner, desk.parse raw = .ok owner → desk.codec.Canonical owner

/-- An answer to some call for the addresses of `base`. -/
structure Asked (a : Answer) : Prop where
  tokens : desk.resolveTokens base.tokens = .ok a.tokens
  scan : ∀ (k : ℕ) s, a.scans[k]? = some s → ∃ raw cursors, base.addresses[k]? = some raw ∧
    desk.parse raw = .ok s.owner ∧
    s.query = depositQuery { base with cursors := cursors } a.tokens raw s.owner ∧
    ∃ v, s.provider = some v
  every : ∀ (k : ℕ) raw, base.addresses[k]? = some raw → ∃ s, a.scans[k]? = some s

variable {desk base} {a : Answer} {round : Round}

theorem Asked.exists_raw (ha : desk.Asked base a) {s : Scan} (hs : s ∈ a.scans) :
    ∃ (i : ℕ) (raw : String), base.addresses[i]? = some raw ∧ desk.parse raw = .ok s.owner := by
  obtain ⟨k, hk⟩ := List.mem_iff_getElem?.mp hs
  obtain ⟨raw, -, hraw, howner, -⟩ := ha.scan k s hk
  exact ⟨k, raw, hraw, howner⟩

/-- The text under which a page stands is accepted as its address. -/
theorem Asked.parse_display (ha : desk.Asked base a) (hcodec : desk.Legible base) {s : Scan}
    (hs : s ∈ a.scans) :
    desk.parse (desk.display s.owner) = .ok s.owner := by
  obtain ⟨i, raw, hraw, howner⟩ := ha.exists_raw hs
  have hcanonical := hcodec raw (List.mem_of_getElem? hraw) s.owner howner
  have hfamily : s.owner.family = desk.chain.family := family_parse howner
  unfold parse
  rw [← hfamily]
  exact Domain.parse_display hcanonical

/-- A cursor that is handed back under `raw` comes from a page of the address `raw` reads as. -/
theorem Asked.exists_scan_of_cursor (ha : desk.Asked base a) (hcodec : desk.Legible base)
    {raw c : String} {owner : AccountAddress}
    (howner : desk.parse raw = .ok owner) (h : cursorsFrom (desk.pages a) raw = some c) :
    ∃ s ∈ a.scans, s.owner = owner ∧ raw = desk.display owner ∧ s.next = some c := by
  obtain ⟨page, hpage, haddress, hcursor⟩ := exists_page_of_cursorsFrom h
  obtain ⟨s, hs, rfl⟩ := List.mem_map.mp hpage
  have hraw : raw = desk.display s.owner := haddress.symm
  have hparse := ha.parse_display hcodec hs
  rw [← hraw, howner] at hparse
  obtain rfl := Except.ok.inj hparse
  exact ⟨s, hs, rfl, hraw, hcursor⟩

theorem steady_of_callResumes (ha : desk.Asked base a) (hcodec : desk.Legible base)
    (h : desk.CallResumes base a round) :
    desk.Steady base a round where
  spelled := by
    intro raw hraw p hp howner hnext
    obtain ⟨i, hi⟩ := List.mem_iff_getElem?.mp hraw
    have hcursor : cursorsFrom (desk.pages a) raw = p.next :=
      (h a.tokens ha.tokens i raw hi p hp howner).cursor
    obtain ⟨c, hc⟩ := Option.ne_none_iff_exists'.mp hnext
    obtain ⟨s, -, -, hdisplay, -⟩ :=
      ha.exists_scan_of_cursor hcodec howner (hcursor.trans hc)
    exact hdisplay
  agree := by
    intro p hp q hq hpq
    obtain ⟨i, raw, hi, howner⟩ := ha.exists_raw hp
    have hcursor := (h a.tokens ha.tokens i raw hi p hp howner).cursor
    have hcursor' := (h a.tokens ha.tokens i raw hi q hq (hpq ▸ howner)).cursor
    exact hcursor.symm.trans hcursor'
  issuer := by
    intro tokens htokens i raw hi p hp howner hnext v hv
    exact staysWith_iff.mpr ((h tokens htokens i raw hi p hp howner).issuer hnext v hv)

theorem callResumes_of_steady (ha : desk.Asked base a) (hcodec : desk.Legible base)
    (h : desk.Steady base a round) :
    desk.CallResumes base a round := by
  intro tokens htokens i raw hi p hp howner
  refine ⟨?_, fun hnext v hv =>
    staysWith_iff.mp (h.issuer tokens htokens i raw hi p hp howner hnext v hv)⟩
  show cursorsFrom (desk.pages a) raw = p.next
  cases hcursor : cursorsFrom (desk.pages a) raw with
  | some c =>
    obtain ⟨s, hs, hsp, -, hnext⟩ := ha.exists_scan_of_cursor hcodec howner hcursor
    rw [← h.agree s hs p hp hsp, hnext]
  | none =>
    -- a page with a cursor stands under `raw`, so the cursor would be found
    by_contra hnone
    have hraw := h.spelled raw (List.mem_of_getElem? hi) p hp howner (Ne.symm hnone)
    have hpage : desk.addressPage a.tokens p ∈ desk.pages a := List.mem_map_of_mem hp
    exact hnone (nextCursor_of_cursorsFrom hcursor hpage hraw.symm).symm

/-- **When a call resumes.** -/
theorem callResumes_iff (ha : desk.Asked base a) (hcodec : desk.Legible base) :
    desk.CallResumes base a round ↔ desk.Steady base a round :=
  ⟨steady_of_callResumes ha hcodec, callResumes_of_steady ha hcodec⟩

/-! ### From call to call -/

variable {tokens : List StablecoinEntry} {scans : List Scan} {last : Option Answer}

/-- What an answered call has looked up at an index. -/
theorem scan_of_scans (h : desk.scans (desk.nextInput base last) round = .ok (tokens, scans))
    {k : ℕ} {s : Scan} (hs : scans[k]? = some s) :
    ∃ raw, base.addresses[k]? = some raw ∧ desk.parse raw = .ok s.owner ∧
      s.query = depositQuery (desk.nextInput base last) tokens raw s.owner ∧
      ∃ place v, s.provider = some v ∧
        ServedAt (fun place v => round.call k place v s.query) (desk.candidatesFor round k).list
          place v s.routed.value := by
  obtain ⟨-, hall⟩ := scans_ok h
  obtain ⟨raw, hraw, hscan⟩ := (scanAll_ok hall k).1 s hs
  rw [Nat.zero_add] at hscan
  exact ⟨raw, hraw, scan_ok hscan⟩

theorem asked_of_scans (h : desk.scans (desk.nextInput base last) round = .ok (tokens, scans)) :
    desk.Asked base ⟨tokens, scans⟩ where
  tokens := (scans_ok h).1
  scan := by
    intro k s hs
    obtain ⟨raw, hraw, howner, hquery, -, v, hv, -⟩ := scan_of_scans h hs
    exact ⟨raw, _, hraw, howner, hquery, v, hv⟩
  every := fun k raw hraw => (scanAll_ok (scans_ok h).2 k).2 raw hraw

/-- A call that resumes continues each page of the answer before it. -/
theorem follows_of_callResumes (ha : desk.Asked base a) (h : desk.CallResumes base a round)
    (hscans : desk.scans (desk.nextInput base (some a)) round = .ok (tokens, scans)) :
    Follows a ⟨tokens, scans⟩ := by
  have htokens := (scans_ok hscans).1
  obtain rfl : a.tokens = tokens := Except.ok.inj (ha.tokens.symm.trans htokens)
  refine ⟨rfl, fun k s hs => ?_⟩
  obtain ⟨raw, hraw, howner, hquery, place, v, hv, hserved⟩ := scan_of_scans hscans hs
  obtain ⟨p, hp⟩ := ha.every k raw hraw
  obtain ⟨raw', cursors, hraw', hpowner, hpquery, v', hpv⟩ := ha.scan k p hp
  obtain rfl : raw = raw' := Option.some.inj (hraw.symm.trans hraw')
  have hsame : s.owner = p.owner := Except.ok.inj (howner.symm.trans hpowner)
  have hcont := h a.tokens htokens k raw hraw p (List.mem_of_getElem? hp) hpowner
  have hnext : s.query = desk.nextQuery base a a.tokens raw p.owner := by
    rw [hquery, hsame]
    rfl
  refine ⟨p, hp, hsame, ?_, fun hne => ?_⟩
  · rw [hnext, hpquery, ← hcont.cursor]
    rfl
  · rw [hnext] at hserved
    rw [hv, hpv, hcont.issuer hne v' hpv place v hserved.candidate hserved.reached]

theorem chained_cons (h : ∀ e, last = some e → Follows e a)
    (hfirst : last = none → ∀ s ∈ a.scans, s.query.cursor = none) {history : List Answer}
    (hlast : history.head? = last) (hchained : Chained history) : Chained (a :: history) := by
  cases history with
  | nil => exact hfirst hlast.symm
  | cons earlier rest => exact ⟨h earlier hlast.symm, hchained⟩

/-- Every page of an answer is what its vendor lists. -/
def Served (listing : Listing) (a : Answer) : Prop :=
  ∀ s ∈ a.scans, ∃ v, s.provider = some v ∧ listing v s.query = .ok s.routed.value

theorem served_of_scans {listing : Listing} (hround : AnswersFrom listing round)
    (h : desk.scans (desk.nextInput base last) round = .ok (tokens, scans)) :
    Served listing ⟨tokens, scans⟩ := by
  intro s hs
  obtain ⟨k, hk⟩ := List.mem_iff_getElem?.mp hs
  obtain ⟨raw, -, -, -, place, v, hv, hserved⟩ := scan_of_scans h hk
  exact ⟨v, hv, hround k place v s.query s.routed.value hserved.answered⟩

/-- The listing of a query does not look at its cursor. -/
theorem listed_cursor (listing : Listing) (v : String) (query : TransferQuery) (c : Option String) :
    listed listing v { query with cursor := c } = listed listing v query := by
  funext c'
  rfl

theorem listed_of_served {listing : Listing} {v : String} {s : Scan}
    (h : listing v s.query = .ok s.routed.value) :
    listed listing v s.query s.query.cursor = .ok (s.routed.value.items, s.next) := by
  show (listing v s.query).map _ = _
  rw [h]
  rfl

/-- **Chained answers skip nothing.** -/
theorem nothingSkipped_of_chained {listing : Listing} {history : List Answer}
    (hchained : Chained history) (hserved : ∀ a ∈ history, Served listing a) :
    NothingSkipped listing history := by
  suffices htrail : ∀ a, history.head? = some a → ∀ (k : ℕ) s, a.scans[k]? = some s →
      ∃ v pages, s.provider = some v ∧ Trail (listed listing v s.query) pages s.next ∧
        received k history = canonicalDeposits pages.flatten s.owner a.tokens by
    intro a ha k s hs
    obtain ⟨v, pages, hv, ht, hreceived⟩ := htrail a ha k s hs
    refine ⟨v, pages, hv, ht, fun hnext => ?_, hreceived⟩
    rw [hnext] at ht
    exact ht.complete
  induction history with
  | nil => exact nofun
  | cons later rest ih =>
    intro a ha k s hs
    obtain rfl : later = a := Option.some.inj ha
    obtain ⟨v, hv, hlisting⟩ := hserved later List.mem_cons_self s (List.mem_of_getElem? hs)
    have hpage := listed_of_served hlisting
    by_cases hstart : s.query.cursor = none
    · refine ⟨v, [s.routed.value.items], hv, .start (hstart ▸ hpage), ?_⟩
      simp only [received, hs, if_pos hstart, List.nil_append, List.flatten_cons, List.flatten_nil,
        List.append_nil]
    · -- the page continues the one before it, which its vendor served too
      cases rest with
      | nil => exact absurd (hchained s (List.mem_of_getElem? hs)) hstart
      | cons earlier rest =>
        obtain ⟨hfollows, hearlier⟩ := hchained
        obtain ⟨p, hp, howner, hquery, hprovider⟩ := hfollows.page k s hs
        obtain ⟨v', pages, hv', htrail, hreceived⟩ :=
          ih hearlier (fun b hb => hserved b (List.mem_cons_of_mem _ hb)) earlier rfl k p hp
        have hcursor : s.query.cursor = p.next := by rw [hquery]
        have hnext : p.next ≠ none := fun hnone => hstart (hcursor.trans hnone)
        obtain ⟨c, hc⟩ := Option.ne_none_iff_exists'.mp hnext
        have hvendor : v = v' :=
          Option.some.inj (hv.symm.trans ((hprovider hnext).trans hv'))
        have hlisted : listed listing v s.query = listed listing v' p.query := by
          rw [hvendor, hquery, listed_cursor]
        rw [hcursor, hc, hlisted] at hpage
        refine ⟨v, pages ++ [s.routed.value.items], hv, ?_, ?_⟩
        · rw [hlisted]
          exact (hc ▸ htrail).snoc hpage
        · rw [received, hs]
          show (if s.query.cursor = none then [] else received k (earlier :: rest)) ++ _ = _
          rw [if_neg hstart, hreceived, List.flatten_append, canonicalDeposits_append, howner,
            hfollows.tokens, List.flatten_cons, List.flatten_nil, List.append_nil]

/-! ### Runs -/

/-- What a call does: it adds an answer, or fails and leaves the answers as they are. -/
theorem pollStep_cases {history history' : List Answer} {es : List (Option Answer × Round)}
    (h : desk.pollStep base history round = some (history', es)) :
    es = [(history.head?, round)] ∧ (history' = history ∨ ∃ tokens scans,
      desk.scans (desk.nextInput base history.head?) round = .ok (tokens, scans) ∧
        history' = ⟨tokens, scans⟩ :: history) := by
  unfold pollStep at h
  cases hscans : desk.scans (desk.nextInput base history.head?) round with
  | error e =>
    rw [hscans] at h
    cases h
    exact ⟨rfl, .inl rfl⟩
  | ok r =>
    rw [hscans] at h
    cases h
    exact ⟨rfl, .inr ⟨r.1, r.2, rfl, rfl⟩⟩

variable (desk base) in
/-- The invariant of a run. -/
structure Polled (tr : List (Option Answer × Round)) (history : List Answer) : Prop where
  answers : ∀ a ∈ history, desk.Asked base a
  events : ∀ e ∈ tr, ∀ a, e.1 = some a → desk.Asked base a
  chained : (∀ e ∈ tr, ∀ a, e.1 = some a → desk.CallResumes base a e.2) → Chained history
  served : ∀ listing, (∀ e ∈ tr, AnswersFrom listing e.2) → ∀ a ∈ history, Served listing a

theorem polled_step {tr es : List (Option Answer × Round)} {history history' : List Answer}
    (hinv : desk.Polled base tr history)
    (h : desk.pollStep base history round = some (history', es)) :
    desk.Polled base (tr ++ es) history' := by
  obtain ⟨rfl, hstep⟩ := pollStep_cases h
  have hlast : ∀ a, history.head? = some a → desk.Asked base a := fun a ha =>
    hinv.answers a (List.mem_of_mem_head? ha)
  have hevents : ∀ e ∈ tr ++ [(history.head?, round)], ∀ a, e.1 = some a → desk.Asked base a := by
    intro e he a ha
    cases List.mem_append.mp he with
    | inl he => exact hinv.events e he a ha
    | inr he =>
      obtain rfl := List.mem_singleton.mp he
      exact hlast a ha
  cases hstep with
  | inl hsame =>
    subst hsame
    refine ⟨hinv.answers, hevents, fun hall => hinv.chained fun e he => ?_,
      fun listing hall => hinv.served listing fun e he => ?_⟩
    · exact hall e (List.mem_append_left _ he)
    · exact hall e (List.mem_append_left _ he)
  | inr hanswered =>
    obtain ⟨tokens, scans, hscans, rfl⟩ := hanswered
    have hmem : (history.head?, round) ∈ tr ++ [(history.head?, round)] :=
      List.mem_append_right _ (List.mem_singleton.mpr rfl)
    refine ⟨List.forall_mem_cons.mpr ⟨asked_of_scans hscans, hinv.answers⟩, hevents, ?_, ?_⟩
    · intro hall
      refine chained_cons (fun a ha => ?_) (fun hnone s hs => ?_) rfl
        (hinv.chained fun e he => hall e (List.mem_append_left _ he))
      · rw [ha] at hscans
        exact follows_of_callResumes (hlast a ha) (hall _ hmem a ha) hscans
      · obtain ⟨k, hk⟩ := List.mem_iff_getElem?.mp hs
        obtain ⟨raw, -, -, hquery, -⟩ := scan_of_scans hscans hk
        rw [hquery, hnone]
        rfl
    · intro listing hall
      exact List.forall_mem_cons.mpr ⟨served_of_scans (hall _ hmem) hscans,
        hinv.served listing fun e he => hall e (List.mem_append_left _ he)⟩

/-- **Polling resumes where it stopped** in the runs whose calls are steady, and in no others. -/
theorem polling_resumes (hcodec : desk.Legible base) {tr : List (Option Answer × Round)}
    {history : List Answer} (h : Reaches (desk.pollStep base) anyAction [] tr history) :
    desk.PollsOn base tr history ↔
      ∀ e ∈ tr, ∀ a, e.1 = some a → desk.Steady base a e.2 := by
  have hinv : desk.Polled base tr history := by
    refine Reaches.invariant (I := fun tr history => desk.Polled base tr history) h ?_ ?_
    · exact ⟨nofun, nofun, fun _ => trivial, fun _ _ => nofun⟩
    · exact fun tr s a s' es hpolled _ hstep => polled_step hpolled hstep
  constructor
  · intro hpolls e he a ha
    exact (callResumes_iff (hinv.events e he a ha) hcodec).mp (hpolls.resumed e he a ha)
  · intro hsteady
    have hresumed : ∀ e ∈ tr, ∀ a, e.1 = some a → desk.CallResumes base a e.2 :=
      fun e he a ha => (callResumes_iff (hinv.events e he a ha) hcodec).mpr (hsteady e he a ha)
    refine ⟨hresumed, hinv.chained hresumed, fun listing hall => ?_⟩
    exact nothingSkipped_of_chained (hinv.chained hresumed) (hinv.served listing hall)

end DepositDesk

/-! ### One address in two spellings -/

/-- An address, as wallets often show it and with its checksum. -/
def lowerCase : String := "0x5aaeb6053f3e94c9b9a09f33669435e7ef1beaed"

def checksummed : String := "0x5aAeb6053F3E94C9b9A09f33669435E7Ef1BeAed"

def polled : Address := 0x5aaeb6053f3e94c9b9a09f33669435e7ef1beaed

def pollCodec : AddressCodec where
  checksum _ := checksummed
  base58 _ := ""
  fromHex s := if s = lowerCase ∨ s = checksummed then some polled else none
  unbase58 _ := none

def usdcEntry : StablecoinEntry := ⟨⟨.evm 1, .erc20 7⟩, "USDC", 6⟩

def pollDesk : DepositDesk where
  chain := ⟨.evm 1, .evm, 18, 60, "tags"⟩
  op := none
  codec := pollCodec
  resolve _ := .error (.invalid "")
  registry := ⟨[usdcEntry]⟩

def pollInput (raw : String) : ListDepositsIn := ⟨[raw], none, fun _ => none, none, none⟩

/-- Everyone answers: a first page with a cursor, and a last one after it. -/
def pollRound : Round where
  table := openTable
  moment _ := quietMoment
  call _ _ vendor query :=
    (.ok ⟨[], if query.cursor = none then some "k" else none⟩, ⟨vendor, .ok, none, none⟩)

/-- What the call after `last` answers. -/
def answerTo (raw : String) (last : Option Answer) : Answer :=
  match pollDesk.scans (pollDesk.nextInput (pollInput raw) last) pollRound with
  | .ok (tokens, scans) => ⟨tokens, scans⟩
  | .error _ => ⟨[], []⟩

def answer₁ (raw : String) : Answer := answerTo raw none

def answer₂ (raw : String) : Answer := answerTo raw (some (answer₁ raw))

/-- Two calls. -/
def twoCalls (raw : String) : List (Option Answer × Round) :=
  [(none, pollRound), (some (answer₁ raw), pollRound)]

def Answers (raw : String) (last : Option Answer) : Bool :=
  (pollDesk.scans (pollDesk.nextInput (pollInput raw) last) pollRound).isOk

theorem pollStep_answerTo {raw : String} {history : List Answer}
    (h : Answers raw history.head? = true) :
    pollDesk.pollStep (pollInput raw) history pollRound
      = some (answerTo raw history.head? :: history, [(history.head?, pollRound)]) := by
  unfold Answers at h
  unfold DepositDesk.pollStep answerTo
  cases hscans : pollDesk.scans (pollDesk.nextInput (pollInput raw) history.head?) pollRound with
  | error e => rw [hscans] at h; cases h
  | ok r => rfl

theorem reaches_twoCalls {raw : String} (h₁ : Answers raw none = true)
    (h₂ : Answers raw (some (answer₁ raw)) = true) :
    Reaches (pollDesk.pollStep (pollInput raw)) anyAction [] (twoCalls raw)
      [answer₂ raw, answer₁ raw] := by
  have hfirst : Reaches (pollDesk.pollStep (pollInput raw)) anyAction []
      [(none, pollRound)] [answer₁ raw] := .snoc .init trivial (pollStep_answerTo h₁)
  exact .snoc hfirst trivial (pollStep_answerTo h₂)

theorem answers_twice : ∀ raw ∈ [lowerCase, checksummed],
    Answers raw none = true ∧ Answers raw (some (answer₁ raw)) = true := by
  decide +kernel

theorem outline_answer₁ : ∀ raw ∈ [lowerCase, checksummed],
    (answer₁ raw).scans.map (fun s => (s.owner, s.next, s.provider))
      = [(.evm polled, some "k", some "alchemy")] := by
  decide +kernel

/-- What stands in the first answer. -/
theorem scan_answer₁ {raw : String} (hraw : raw ∈ [lowerCase, checksummed]) {p : Scan}
    (hp : p ∈ (answer₁ raw).scans) :
    p.owner = .evm polled ∧ p.next = some "k" ∧ p.provider = some "alchemy" := by
  have hmem := List.mem_map_of_mem (f := fun s : Scan => (s.owner, s.next, s.provider)) hp
  rw [outline_answer₁ raw hraw] at hmem
  have heq := List.mem_singleton.mp hmem
  exact ⟨congrArg (·.1) heq, congrArg (·.2.1) heq, congrArg (·.2.2) heq⟩

theorem legible_checksummed : pollDesk.Legible (pollInput checksummed) := by
  intro raw hraw owner howner
  have hparse : pollDesk.parse checksummed = .ok (.evm polled) := by decide
  obtain rfl : raw = checksummed := List.mem_singleton.mp hraw
  obtain rfl : AccountAddress.evm polled = owner := Except.ok.inj (hparse.symm.trans howner)
  have hsolid : (checksummed.toList.all fun c => !isWhitespace c) = true := by rfl
  refine ⟨fun c hc => ?_, fun a ha => ?_, nofun⟩
  · exact Bool.not_eq_true' _ |>.mp (List.all_eq_true.mp hsolid c hc)
  · cases ha
    decide

theorem steady_checksummed :
    pollDesk.Steady (pollInput checksummed) (answer₁ checksummed) pollRound where
  spelled := by
    intro raw hraw p hp _ _
    obtain ⟨howner, -, -⟩ := scan_answer₁ (by decide) hp
    rw [howner]
    exact List.mem_singleton.mp hraw
  agree := by
    intro p hp q hq _
    rw [(scan_answer₁ (by decide) hp).2.1, (scan_answer₁ (by decide) hq).2.1]
  issuer := by
    intro tokens _ i raw _ p hp _ _ v hv
    obtain ⟨-, -, hprovider⟩ := scan_answer₁ (by decide) hp
    obtain rfl : "alchemy" = v := Option.some.inj (hprovider.symm.trans hv)
    show StaysWith "alchemy" (candidatesAt openTable pollDesk.req quietMoment).list _
    rw [show (candidatesAt openTable pollDesk.req quietMoment).list = ["alchemy", "moralis"] from
      by decide]
    exact ⟨rfl, fun ⟨_, he, _⟩ => nomatch he⟩

/-- An address with its checksum is read to the end. -/
theorem polls_checksummed : ∃ tr history,
    Reaches (pollDesk.pollStep (pollInput checksummed)) anyAction [] tr history ∧
      history.length = 2 ∧ pollDesk.PollsOn (pollInput checksummed) tr history := by
  have hrun := reaches_twoCalls (answers_twice checksummed (by decide)).1
    (answers_twice checksummed (by decide)).2
  refine ⟨_, _, hrun, rfl, (DepositDesk.polling_resumes legible_checksummed hrun).mpr ?_⟩
  intro e he a ha
  cases he with
  | head => cases ha
  | tail _ he =>
    obtain rfl := List.mem_singleton.mp he
    cases ha
    exact steady_checksummed

/-- The same address in lower case starts again from the top: the cursor of its page is not found
under the text it is given in. -/
theorem lowerCase_restarts : ∃ tr history,
    Reaches (pollDesk.pollStep (pollInput lowerCase)) anyAction [] tr history ∧
      ¬pollDesk.PollsOn (pollInput lowerCase) tr history := by
  have hrun := reaches_twoCalls (answers_twice lowerCase (by decide)).1
    (answers_twice lowerCase (by decide)).2
  refine ⟨_, _, hrun, fun hpolls => ?_⟩
  have hresumed := hpolls.resumed (some (answer₁ lowerCase), pollRound) (by simp [twoCalls]) _ rfl
  cases hscans : (answer₁ lowerCase).scans with
  | nil =>
    have hone := outline_answer₁ lowerCase (by decide)
    rw [hscans] at hone
    cases hone
  | cons p rest =>
    have hp : p ∈ (answer₁ lowerCase).scans := by rw [hscans]; exact List.mem_cons_self
    obtain ⟨howner, hnext, -⟩ := scan_answer₁ (by decide) hp
    have hparse : pollDesk.parse lowerCase = .ok p.owner := by rw [howner]; decide
    have hcursor := (hresumed [usdcEntry] rfl 0 lowerCase rfl p hp hparse).cursor
    have hnone : cursorsFrom (pollDesk.pages (answer₁ lowerCase)) lowerCase = none := by decide
    have hasked : (pollDesk.nextQuery (pollInput lowerCase) (answer₁ lowerCase) [usdcEntry]
        lowerCase p.owner).cursor = none := hnone
    rw [hasked, hnext] at hcursor
    cases hcursor

end OnchainDataMcp.App
