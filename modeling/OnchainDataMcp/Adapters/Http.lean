import OnchainDataMcp.Config.Redacted

/-!
# Secrets in the texts of vendors

The adapters scrub what a vendor answers and what a request failed with. They know all secrets, and
take the parts of the request's URL that look like keys for secrets as well.

* `urlSecrets` — these parts: long path segments, query values and host labels;
* `HttpClient` — a client with its secrets, none of them short;
* `scrub_hides` — when the two ways of scrubping hide the secrets.
-/

namespace OnchainDataMcp.Adapters

open OnchainDataMcp.Config OnchainDataMcp.Lib

/-! ### URLs -/

/-- `str::split_once` at a text that is not empty. -/
def splitOnceAt (sep : List Char) : List Char → Option (List Char × List Char)
  | [] => none
  | c :: text =>
    if sep <+: c :: text then some ([], (c :: text).drop sep.length)
    else (splitOnceAt sep text).map fun lr => (c :: lr.1, lr.2)

def byteLength (part : List Char) : ℕ := (String.ofList part).utf8ByteSize

/-- Key-looking parts of a URL (path segments and query values of 10+ bytes) to scrub. -/
def urlSecrets (url : String) : List String :=
  let rest := ((splitOnceAt "://".toList url.toList).map Prod.snd).getD url.toList
  let (path, query) := (splitOnceAt ['?'] rest).getD (rest, [])
  let pathParts := (path.splitOn '/').tail
  let queryValues := (query.splitOn '&').filterMap fun kv => (splitOnceAt ['='] kv).map Prod.snd
  let parts := (pathParts ++ queryValues).filter fun s => decide (10 ≤ byteLength s)
  -- a host label may be an endpoint token
  let labels := match (path.splitOn '/').head? with
    | some host => (host.splitOn '.').filter fun p => decide (16 ≤ byteLength p)
    | none => []
  (parts ++ labels).map String.ofList

theorem long_of_mem_urlSecrets {url s : String} (h : s ∈ urlSecrets url) : 10 ≤ s.utf8ByteSize := by
  obtain ⟨part, hpart, rfl⟩ := List.mem_map.mp h
  rcases List.mem_append.mp hpart with hpart | hpart
  · exact of_decide_eq_true (List.mem_filter.mp hpart).2
  · split at hpart
    · have hlong : 16 ≤ byteLength part := of_decide_eq_true (List.mem_filter.mp hpart).2
      exact le_trans (by omega) hlong
    · cases hpart

/-! ### Clients -/

structure HttpClient where
  secrets : List String
  long : ∀ s ∈ secrets, 6 ≤ s.utf8ByteSize

namespace HttpClient

def new : HttpClient := ⟨[], fun _ h => absurd h List.not_mem_nil⟩

/-- Extra secrets to scrub besides those of the URL. -/
def withSecrets (c : HttpClient) (secrets : List String) : HttpClient where
  secrets := c.secrets ++ secrets.filter fun s => decide (6 ≤ s.utf8ByteSize)
  long s hs := by
    rcases List.mem_append.mp hs with hs | hs
    · exact c.long s hs
    · exact of_decide_eq_true (List.mem_filter.mp hs).2

/-- Replace every known secret, plus key-looking URL parts, with `***`. -/
def scrub (c : HttpClient) (text url : String) : String :=
  (urlSecrets url ++ c.secrets).foldl (fun acc s => replace acc s "***") text

end HttpClient

/-- What either way of scrubbing hides: it is decided by the occurrences that stand. -/
theorem scrub_hides (c : HttpClient) (text url : String) {secrets : List String}
    (hlong : ∀ s ∈ secrets, 6 ≤ s.utf8ByteSize) :
    HidesExactly secrets text (scrub text secrets) ∧
      HidesExactly (urlSecrets url ++ c.secrets) text (c.scrub text url) := by
  refine ⟨scrub_hidesExactly hlong text, hidesExactly_foldl (fun s hs => ?_) text⟩
  rcases List.mem_append.mp hs with hs | hs
  · exact le_trans (by omega) (long_of_mem_urlSecrets hs)
  · exact c.long s hs

/-! ### A key in the URL of an endpoint -/

def rpcKey : String := "0123456789abcdef"

def rpcUrl : String := "https://node.example/v2/0123456789abcdef"

/-- The client of a custom endpoint: the key, then the URL that has it. -/
def rpcClient : HttpClient := HttpClient.new.withSecrets [rpcKey, rpcUrl]

theorem scrub_hides_rpc :
    HidesExactly [rpcKey, rpcUrl] rpcUrl (scrub rpcUrl [rpcKey, rpcUrl]) ∧
      HidesExactly (urlSecrets rpcUrl ++ rpcClient.secrets) rpcUrl
        (rpcClient.scrub rpcUrl rpcUrl) :=
  scrub_hides rpcClient rpcUrl rpcUrl (by decide +kernel)

/-- Once the key is gone the rest of the URL stays. -/
theorem scrub_leaves_url :
    ¬Hides [rpcKey, rpcUrl] rpcUrl (scrub rpcUrl [rpcKey, rpcUrl]) ∧
      ¬Hides (urlSecrets rpcUrl ++ rpcClient.secrets) rpcUrl (rpcClient.scrub rpcUrl rpcUrl) := by
  have hout : 'h' ∉ "***".toList := by decide
  constructor
  · have hword : rpcUrl.toList ∈ letters [rpcKey, rpcUrl] :=
      List.mem_map.mpr ⟨rpcUrl, by decide +kernel, rfl⟩
    have hread : 'h' ∈ (scrub rpcUrl [rpcKey, rpcUrl]).toList := by
      rw [scrub_eq_foldl (by decide +kernel), toList_foldl_replace]
      decide +kernel
    exact Redaction.not_hides_whole hword hread hout
  · have hword : rpcUrl.toList ∈ letters (urlSecrets rpcUrl ++ rpcClient.secrets) :=
      List.mem_map.mpr ⟨rpcUrl, by decide +kernel, rfl⟩
    have hread : 'h' ∈ (rpcClient.scrub rpcUrl rpcUrl).toList := by
      rw [HttpClient.scrub, toList_foldl_replace]
      decide +kernel
    exact Redaction.not_hides_whole hword hread hout

end OnchainDataMcp.Adapters
