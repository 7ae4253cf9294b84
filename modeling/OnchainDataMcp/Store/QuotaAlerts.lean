import OnchainDataMcp.Lib.FirstSeen
import OnchainDataMcp.Store.QuotaCsv

/-!
# Quota alerts

Every minute the server looks at the quota report and logs what has been reached: a threshold of a
window, its reserve, its end.  What has been logged is remembered by a text of the vendor, the
window, its reset and what was reached.

* `alertsOf` — what a report has reached;
* `checkAlerts` — what is logged of it;
* `keyText_inj` — the texts tell alerts apart;
* `not_mem_kind` — what the report calls a window lets them;
* `alerts_once` — over any reports, each alert is logged once, when it is first reached.
-/

namespace OnchainDataMcp.Store.Quota

open OnchainDataMcp.Domain OnchainDataMcp.Lib OnchainDataMcp.Lib.Machine

/-! ### Alerts -/

inductive What
  | crossed (pct : UInt8)
  | reached (state : QuotaState)
  deriving DecidableEq, Repr

/-- `used` and `effective` are logged with a threshold only. -/
structure Alert where
  vendor : String
  window : String
  resetsAt : Option DateTime
  what : What
  used : Option ℕ
  effective : Option ℕ
  deriving DecidableEq, Repr

/-- `{:?}` of a state. -/
def debugText : QuotaState → String
  | .ok => "Ok"
  | .warning => "Warning"
  | .reserve => "Reserve"
  | .exhausted => "Exhausted"

def whatText : What → String
  | .crossed pct => toString pct.toNat
  | .reached state => debugText state

/-- What an alert is remembered by. -/
def keyText (a : Alert) : String :=
  a.vendor ++ ":" ++ a.window ++ ":" ++ timeText a.resetsAt ++ ":" ++ whatText a.what

def alertsOfWindow (v : VendorQuota) (w : WindowQuota) : List Alert :=
  (w.alerts.map fun pct => ⟨v.vendor, w.kind, w.resetsAt, .crossed pct, w.used, w.effective⟩) ++
    if QuotaState.reserve.rank ≤ w.state.rank then
      [⟨v.vendor, w.kind, w.resetsAt, .reached w.state, none, none⟩]
    else []

def alertsOf (report : List VendorQuota) : List Alert :=
  report.flatMap fun v => v.windows.flatMap (alertsOfWindow v)

/-- Log each crossed alert threshold / reserve / exhaustion once per window. -/
def checkAlerts (alerted : Finset String) (report : List VendorQuota) :
    List Alert × Finset String :=
  FirstSeen.tell keyText alerted (alertsOf report)

/-- What is logged of the reports that were looked at, one after the other. -/
def alertLog (reports : List (List VendorQuota)) : List Alert :=
  (outputs checkAlerts ∅ reports).flatten

/-- What an alert is about: the vendor, the window, its reset and what was reached. -/
def Alert.subject (a : Alert) : String × String × String × What :=
  (a.vendor, a.window, timeText a.resetsAt, a.what)

/-! ### Texts of times -/

/-- A text of a time: the day, a `T`, and the rest, which does not end with a colon. -/
structure Stamped (text : List Char) : Prop where
  split : ∃ day rest, text = day ++ 'T' :: rest ∧ ':' ∉ day ∧ 'T' ∉ rest ∧
    rest.getLast? ≠ some ':'

theorem not_mem_fractionText {n : ℕ} {c : Char} (hc : c.isDigit = false) (hpoint : c ≠ '.') :
    c ∉ (fractionText n).toList := by
  unfold fractionText
  split_ifs
  · exact List.not_mem_nil
  all_goals
    rw [String.toList_append, List.mem_append]
    rintro (hmem | hmem)
    · exact hpoint (List.mem_singleton.mp hmem)
    · exact not_mem_padded hc hmem

theorem not_mem_clockText (nanos : ℕ) : 'T' ∉ (clockText nanos).toList := by
  have hpadded : ∀ n, 'T' ∉ (padded 2 n).toList := fun n => not_mem_padded rfl
  have hfraction : ∀ n, 'T' ∉ (fractionText n).toList := fun n =>
    not_mem_fractionText rfl (by decide)
  have hcolon : 'T' ∉ ":".toList := by decide
  have hoffset : 'T' ∉ "+00:00".toList := by decide
  simp only [clockText, String.toList_append, List.mem_append, not_or]
  exact ⟨⟨⟨⟨⟨⟨hpadded _, hcolon⟩, hpadded _⟩, hcolon⟩, hpadded _⟩, hfraction _⟩, hoffset⟩

theorem not_mem_dateText (t : DateTime) : ':' ∉ (dateText t).toList := by
  have hpadded : ∀ width n, ':' ∉ (padded width n).toList := fun _ n => not_mem_padded rfl
  have hdash : ':' ∉ "-".toList := by decide
  unfold dateText
  generalize civil t.days = date
  obtain ⟨year, month, day⟩ := date
  have hsign : ':' ∉ yearSign year := by
    unfold yearSign
    split_ifs <;> decide
  simp only [String.toList_append, toList_yearText, List.mem_append, not_or]
  exact ⟨⟨⟨⟨⟨hsign, hpadded _ _⟩, hdash⟩, hpadded _ _⟩, hdash⟩, hpadded _ _⟩

theorem stamped_rfc3339 (t : DateTime) : Stamped (rfc3339 t).toList := by
  refine ⟨(dateText t).toList, (clockText (t.nanos % (86400 * 1000000000)).toNat).toList, ?_,
    not_mem_dateText t, not_mem_clockText _, ?_⟩
  · rw [rfc3339, String.toList_append, String.toList_append, List.append_assoc]
    rfl
  · have hlast : "+00:00".toList.getLast? = some '0' := by decide
    rw [clockText, String.toList_append, List.getLast?_append, hlast, Option.some_or]
    decide

/-- The first of the first kind comes before any of the other kind. -/
theorem cut_after {c d : Char} {day rest m w : List Char} (hne : c ≠ d) (hday : d ∉ day)
    (h : day ++ c :: rest = m ++ d :: w) : ∃ n, rest = n ++ d :: w := by
  induction day generalizing m with
  | nil =>
    cases m with
    | nil => exact absurd (List.cons.inj h).1 hne
    | cons e m => exact ⟨m, (List.cons.inj h).2⟩
  | cons e day ih =>
    cases m with
    | nil => exact absurd ((List.cons.inj h).1 ▸ List.mem_cons_self) hday
    | cons e' m => exact ih (fun hmem => hday (List.mem_cons_of_mem _ hmem)) (List.cons.inj h).2

/-- No time ends with a colon and a time, nor with a colon and nothing. -/
theorem timeText_ne {t w : Option DateTime} {m : List Char} :
    (timeText t).toList ≠ m ++ ':' :: (timeText w).toList := by
  intro heq
  cases t with
  | none => cases m <;> cases heq
  | some t =>
    obtain ⟨⟨day, rest, hsplit, hday, hrest, hlast⟩⟩ := stamped_rfc3339 t
    obtain ⟨n, hn⟩ := cut_after (by decide) hday (hsplit.symm.trans heq)
    cases w with
    | none =>
      apply hlast
      rw [hn]
      exact List.getLast?_concat
    | some w =>
      obtain ⟨⟨day', rest', hsplit', -⟩⟩ := stamped_rfc3339 w
      apply hrest
      rw [hn]
      refine List.mem_append_right _ (List.mem_cons_of_mem _ ?_)
      show 'T' ∈ (rfc3339 w).toList
      rw [hsplit']
      exact List.mem_append_right _ List.mem_cons_self

/-- A time, or none, after a colon: the text says where it starts. -/
theorem time_cut {t t' : Option DateTime} {u u' : List Char}
    (h : u ++ ':' :: (timeText t).toList = u' ++ ':' :: (timeText t').toList) :
    u = u' ∧ timeText t = timeText t' := by
  rcases List.append_eq_append_iff.mp h with ⟨m, hm, hrest⟩ | ⟨m, hm, hrest⟩
  all_goals
    cases m with
    | nil =>
      rw [List.append_nil] at hm
      rw [List.nil_append] at hrest
      have htime := (List.cons.inj hrest).2
      exact ⟨by simp [hm], String.toList_inj.mp (by simp [htime])⟩
    | cons c m => exact absurd (List.cons.inj hrest).2 timeText_ne

/-! ### Texts of alerts -/

theorem not_mem_whatText (what : What) : ':' ∉ (whatText what).toList := by
  cases what with
  | crossed pct => exact not_mem_toString rfl
  | reached state => cases state <;> decide

/-- A state is not written in digits. -/
theorem whatText_ne (pct : UInt8) (state : QuotaState) :
    whatText (.crossed pct) ≠ whatText (.reached state) := by
  have hletter : ∃ c ∈ (debugText state).toList, c.isDigit = false := by
    cases state with
    | ok => exact ⟨'k', by decide, rfl⟩
    | warning => exact ⟨'W', by decide, rfl⟩
    | reserve => exact ⟨'R', by decide, rfl⟩
    | exhausted => exact ⟨'E', by decide, rfl⟩
  obtain ⟨c, hmem, hdigit⟩ := hletter
  intro h
  exact not_mem_toString hdigit (show c ∈ (whatText (.crossed pct)).toList from h ▸ hmem)

theorem whatText_inj {a b : What} (h : whatText a = whatText b) : a = b := by
  cases a with
  | crossed pct =>
    cases b with
    | crossed pct' =>
      have hdigits : Nat.toDigits 10 pct.toNat = Nat.toDigits 10 pct'.toNat := by
        rw [← Nat.toList_repr, ← Nat.toList_repr]
        exact congrArg String.toList h
      have hnat : pct.toNat = pct'.toNat := by
        rw [← @Nat.ofDigitChars_ten_toDigits pct.toNat, hdigits, Nat.ofDigitChars_ten_toDigits]
      rw [UInt8.toNat_inj.mp hnat]
    | reached state => exact absurd h (whatText_ne pct state)
  | reached state =>
    cases b with
    | crossed pct => exact absurd h.symm (whatText_ne pct state)
    | reached state' =>
      have hstate : debugText state = debugText state' := h
      cases state <;> cases state' <;> first | rfl | exact absurd hstate (by decide)

/-- Two texts on both sides of a colon, when none of the latter has one. -/
theorem colon_cut {u u' w w' : List Char} (hw : ':' ∉ w) (hw' : ':' ∉ w')
    (h : u ++ ':' :: w = u' ++ ':' :: w') : u = u' ∧ w = w' := by
  rcases List.append_eq_append_iff.mp h with ⟨m, hm, hrest⟩ | ⟨m, hm, hrest⟩
  · cases m with
    | nil => exact ⟨by simp [hm], (List.cons.inj hrest).2⟩
    | cons c m => exact absurd ((List.cons.inj hrest).2 ▸ by simp) hw
  · cases m with
    | nil => exact ⟨by simp [hm], (List.cons.inj hrest).2.symm⟩
    | cons c m => exact absurd ((List.cons.inj hrest).2 ▸ by simp) hw'

/-- **The texts tell alerts apart** when no window's name has a colon. -/
theorem keyText_inj {a b : Alert} (ha : ':' ∉ a.window.toList) (hb : ':' ∉ b.window.toList) :
    keyText a = keyText b ↔ a.subject = b.subject := by
  constructor
  · intro h
    have hsplit : ∀ x : Alert, (keyText x).toList =
        ((x.vendor.toList ++ ':' :: x.window.toList) ++ ':' :: (timeText x.resetsAt).toList) ++
          ':' :: (whatText x.what).toList := by
      intro x
      simp [keyText, String.toList_append]
    have hlist := congrArg String.toList h
    rw [hsplit, hsplit] at hlist
    obtain ⟨hrest, hwhat⟩ := colon_cut (not_mem_whatText _) (not_mem_whatText _) hlist
    obtain ⟨hnames, htime⟩ := time_cut hrest
    obtain ⟨hvendor, hwindow⟩ := colon_cut ha hb hnames
    rw [Alert.subject, Alert.subject, String.toList_inj.mp hvendor, String.toList_inj.mp hwindow,
      htime, whatText_inj (String.toList_inj.mp hwhat)]
  · intro h
    simp only [Alert.subject, Prod.mk.injEq] at h
    obtain ⟨hvendor, hwindow, htime, hwhat⟩ := h
    rw [keyText, keyText, hvendor, hwindow, htime, hwhat]

theorem window_of_mem_alertsOf {report : List VendorQuota} {a : Alert} (h : a ∈ alertsOf report) :
    ∃ v ∈ report, ∃ w ∈ v.windows, a.window = w.kind := by
  obtain ⟨v, hv, ha⟩ := List.mem_flatMap.mp h
  obtain ⟨w, hw, ha⟩ := List.mem_flatMap.mp ha
  refine ⟨v, hv, w, hw, ?_⟩
  rw [alertsOfWindow, List.mem_append] at ha
  rcases ha with hcrossed | hreached
  · obtain ⟨pct, -, rfl⟩ := List.mem_map.mp hcrossed
    rfl
  · split_ifs at hreached
    · rw [List.mem_singleton.mp hreached]
    · cases hreached

/-! ### The log -/

theorem alertLog_eq (reports : List (List VendorQuota)) :
    alertLog reports = FirstSeen.news keyText ∅ (reports.flatMap alertsOf) := by
  have houtputs : ∀ seen, outputs checkAlerts seen reports =
      outputs (FirstSeen.tell keyText) seen (reports.map alertsOf) := by
    induction reports with
    | nil => exact fun _ => rfl
    | cons report reports ih =>
      intro seen
      rw [List.map_cons, outputs_cons, outputs_cons, ih]
      rfl
  rw [alertLog, houtputs, FirstSeen.flatten_outputs_tell, List.flatMap]

/-- What the code names a window has no colon. -/
theorem not_mem_kind {r : Readings} {rows : List WindowQuota} (h : windows r = some rows)
    {w : WindowQuota} (hw : w ∈ rows) : ':' ∉ w.kind.toList := by
  rcases (mem_windows_iff h).mp hw with ⟨window, hrow⟩ | hlive
  · obtain ⟨-, pct, proj, -, -, rfl⟩ := row_eq_some_iff.mp hrow
    show ':' ∉ window.asStr.toList
    cases window <;> decide
  · cases hhealth : r.health with
    | none =>
      rw [live, hhealth] at hlive
      cases hlive
    | some u =>
      rw [live, hhealth] at hlive
      obtain ⟨-, pct, -, rfl⟩ := liveRow_eq_some_iff.mp hlive
      show ':' ∉ "live".toList
      decide

/-- **Each alert is logged once**, when it is first reached, over the reports of a whole run. -/
theorem alerts_once {reports : List (List VendorQuota)}
    (hwindows : ∀ report ∈ reports, ∀ v ∈ report, ∃ r, windows r = some v.windows) :
    (alertLog reports).Sublist (reports.flatMap alertsOf) ∧
      ∀ a ∈ reports.flatMap alertsOf,
        (alertLog reports).filter (·.subject = a.subject) =
          ((reports.flatMap alertsOf).find? (·.subject = a.subject)).toList := by
  have hplain : ∀ a ∈ reports.flatMap alertsOf, ':' ∉ a.window.toList := by
    intro a ha
    obtain ⟨report, hreport, ha⟩ := List.mem_flatMap.mp ha
    obtain ⟨v, hv, w, hw, hwindow⟩ := window_of_mem_alertsOf ha
    obtain ⟨r, hr⟩ := hwindows report hreport v hv
    exact hwindow ▸ not_mem_kind hr hw
  have horder : (alertLog reports).Sublist (reports.flatMap alertsOf) := by
    rw [alertLog_eq]
    exact FirstSeen.news_sublist
  refine ⟨horder, fun a ha => ?_⟩
  have hkey : ∀ b ∈ reports.flatMap alertsOf,
      decide (b.subject = a.subject) = decide (keyText b = keyText a) := fun b hb =>
    decide_eq_decide.mpr (keyText_inj (hplain b hb) (hplain a ha)).symm
  calc (alertLog reports).filter (·.subject = a.subject)
      = (alertLog reports).filter (keyText · = keyText a) :=
        List.filter_congr fun b hb => hkey b (horder.subset hb)
    _ = ((reports.flatMap alertsOf).find? (keyText · = keyText a)).toList := by
        rw [alertLog_eq]
        exact FirstSeen.filter_news (Finset.notMem_empty _)
    _ = ((reports.flatMap alertsOf).find? (·.subject = a.subject)).toList := by
        rw [List.find?_congr hkey]

/-- The report of one vendor with a hundred requests a day. -/
def dailyReport (made : UInt64) : List VendorQuota :=
  let r := dailyReadings made ⟨none, none, none⟩
  [⟨r.vendor, r.budget.unit, true, (windows r).getD []⟩]

example : (alertLog ([70, 80, 80, 95].map dailyReport)).map (·.what) =
    [.crossed 75, .crossed 90, .reached .reserve] := by decide +kernel

/-- Seventy requests, then eighty, the same again, and ninety-five. -/
theorem alerts_once_daily : let reports := [70, 80, 80, 95].map dailyReport
    (alertLog reports).Sublist (reports.flatMap alertsOf) ∧
      ∀ a ∈ reports.flatMap alertsOf,
        (alertLog reports).filter (·.subject = a.subject) =
          ((reports.flatMap alertsOf).find? (·.subject = a.subject)).toList := by
  refine alerts_once fun report hreport v hv => ?_
  obtain ⟨made, -, rfl⟩ := List.mem_map.mp hreport
  obtain rfl := List.mem_singleton.mp hv
  have hfits : HeaderFits (dailyReadings made ⟨none, none, none⟩) := fun u hu l rem hl => by
    obtain rfl := Option.some.inj hu
    cases hl
  obtain ⟨rows, hrows⟩ := Option.ne_none_iff_exists'.mp (windows_ne_none_iff.mpr hfits)
  exact ⟨_, hrows.trans (by rw [hrows]; rfl)⟩

end OnchainDataMcp.Store.Quota
