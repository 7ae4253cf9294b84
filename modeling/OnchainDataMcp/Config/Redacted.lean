import OnchainDataMcp.Config.Settings
import OnchainDataMcp.Lib.Redaction

/-!
# Secrets in texts

What is shown or logged is scrubbed first: each secret in it is replaced by `***`.

* `secretValues` — the keys, then the URLs of the operator's endpoints;
* `scrub` — the replacements, one secret after the other;
* `Hides` — no byte of an occurrence of a secret is left to read;
* `scrub_hidesExactly` — when the replacements hide the secrets.
-/

namespace OnchainDataMcp.Config

open OnchainDataMcp.Lib

/-- `str::replace` of a pattern that is not empty. -/
def replace (text pattern fill : String) : String :=
  String.ofList (Redaction.replaceFrom pattern.toList fill.toList 0 text.toList)

/-- Replace any occurrence of `secret` inside `text` (e.g. a URL with the key in its path). -/
def scrub (text : String) (secrets : List String) : String :=
  (secrets.filter fun s => decide (6 ≤ s.utf8ByteSize)).foldl (fun acc s => replace acc s "***") text

/-- All secret values (for scrubbing logs and error messages). -/
def secretValues (keys : OrdMap String (OrdMap String String))
    (customRpc : OrdMap String CustomRpc) : List String :=
  ((keys.entries.flatMap fun e => e.2.entries.map Prod.snd) ++
    customRpc.entries.map fun e => e.2.url).filter fun s => !s.isEmpty

/-! ### What scrubbing promises -/

def letters (secrets : List String) : List (List Char) := secrets.map String.toList

/-- The result is the text with disjoint intervals replaced by `***`, and they cover every
occurrence of every secret. -/
def Hides (secrets : List String) (text result : String) : Prop :=
  Redaction.Hides (letters secrets) "***".toList text.toList result.toList

/-- Each letter of an occurrence lies in an occurrence that stands: one that overlaps no standing
occurrence of a secret before it in the list, nor of the same secret further left. -/
def Covered (secrets : List String) (text : String) : Prop :=
  Redaction.Covered (letters secrets) text.toList

/-- A secret with a `*` comes before every secret that occurs. -/
def StarsFirst (secrets : List String) (text : String) : Prop :=
  Redaction.FillFirst (letters secrets) "***".toList text.toList

/-- A secret with a `*` does not occur, nor does a secret before it. -/
def StarsApart (secrets : List String) (text : String) : Prop :=
  Redaction.FillApart (letters secrets) "***".toList text.toList

/-- What decides whether scrubbing hides the secrets. -/
structure HidesExactly (secrets : List String) (text result : String) : Prop where
  enough : StarsFirst secrets text → Covered secrets text → Hides secrets text result
  exact : StarsApart secrets text → (Hides secrets text result ↔ Covered secrets text)

theorem toList_foldl_replace (secrets : List String) (text fill : String) :
    (secrets.foldl (fun acc s => replace acc s fill) text).toList
      = Redaction.replaceAll (letters secrets) fill.toList text.toList := by
  induction secrets generalizing text with
  | nil => rfl
  | cons s secrets ih =>
    rw [List.foldl_cons, ih (replace text s fill), replace, String.toList_ofList]
    rfl

theorem hidesExactly_foldl {secrets : List String} (hlong : ∀ s ∈ secrets, 6 ≤ s.utf8ByteSize)
    (text : String) :
    HidesExactly secrets text (secrets.foldl (fun acc s => replace acc s "***") text) := by
  have hne : ∀ word ∈ letters secrets, word ≠ [] := by
    intro word hword hnil
    obtain ⟨s, hs, rfl⟩ := List.mem_map.mp hword
    have hsize := hlong s hs
    rw [String.toList_eq_nil_iff.mp hnil] at hsize
    exact absurd hsize (by decide)
  have hfill : "***".toList ≠ [] := by decide
  refine ⟨fun hfirst hcovered => ?_, fun hapart => ?_⟩
  · unfold Hides
    rw [toList_foldl_replace]
    exact Redaction.hides_of_covered hne hfill hfirst hcovered
  · unfold Hides
    rw [toList_foldl_replace]
    exact Redaction.hides_iff_covered hne hfill hapart

theorem scrub_eq_foldl {secrets : List String} (hlong : ∀ s ∈ secrets, 6 ≤ s.utf8ByteSize)
    (text : String) :
    scrub text secrets = secrets.foldl (fun acc s => replace acc s "***") text := by
  rw [scrub, List.filter_eq_self.mpr fun s hs => decide_eq_true (hlong s hs)]

theorem scrub_hidesExactly {secrets : List String} (hlong : ∀ s ∈ secrets, 6 ≤ s.utf8ByteSize)
    (text : String) : HidesExactly secrets text (scrub text secrets) := by
  rw [scrub_eq_foldl hlong]
  exact hidesExactly_foldl hlong text

end OnchainDataMcp.Config
