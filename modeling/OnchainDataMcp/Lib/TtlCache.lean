import Mathlib.Data.List.MinMax
import Mathlib.Data.List.Nodup

/-!
# A cache whose entries expire

At most `cap` entries, one for a key, each with the time at which it expires.  Reading drops an
entry that is past its time; a new key in a full cache first drops everything expired and then, if
that was not enough, the entry that would expire soonest.

* `get` / `get_hit` — what is read was stored and has not expired;
* `insert` / `mem_insert` — inserting adds one entry and no other;
* `get_insert` — it is read back until it expires;
* `mem_insert_or` / `insert_makesRoom` — what an insertion does to the live entries.
-/

namespace OnchainDataMcp.Lib

/-- The entries of a cache over times `τ`. -/
structure TtlCache (κ ν τ : Type*) (cap : ℕ) where
  entries : List (κ × ν × τ)
  nodup : (entries.map Prod.fst).Nodup
  fits : entries.length ≤ cap

namespace TtlCache

variable {κ ν τ : Type*} [DecidableEq κ] [LinearOrder τ] {cap : ℕ}

/-! ### Entries -/

def empty : TtlCache κ ν τ cap := ⟨[], List.nodup_nil, Nat.zero_le _⟩

/-- The entries of other keys. -/
def without (k : κ) (es : List (κ × ν × τ)) : List (κ × ν × τ) := es.filter fun e => e.1 ≠ k

omit [DecidableEq κ] [LinearOrder τ] in
theorem nodup_filter {es : List (κ × ν × τ)} (p : κ × ν × τ → Bool)
    (h : (es.map Prod.fst).Nodup) : ((es.filter p).map Prod.fst).Nodup :=
  h.sublist (List.filter_sublist.map Prod.fst)

omit [LinearOrder τ] in
theorem notMem_without (k : κ) (es : List (κ × ν × τ)) : k ∉ (without k es).map Prod.fst := by
  intro h
  obtain ⟨e, he, rfl⟩ := List.mem_map.mp h
  exact of_decide_eq_true (List.mem_filter.mp he).2 rfl

omit [LinearOrder τ] in
/-- With an entry of the key there is less without it. -/
theorem length_without_lt {k : κ} {es : List (κ × ν × τ)} (h : k ∈ es.map Prod.fst) :
    (without k es).length < es.length := by
  obtain ⟨e, he, rfl⟩ := List.mem_map.mp h
  apply List.length_filter_lt_length_iff_exists.mpr
  exact ⟨e, he, by simp⟩

/-! ### Reading -/

/-- The value of a key, unless it has expired; an expired entry is dropped. -/
def get (now : τ) (k : κ) (c : TtlCache κ ν τ cap) : Option ν × TtlCache κ ν τ cap :=
  match c.entries.find? fun e => e.1 = k with
  | none => (none, c)
  | some (_, v, expires) =>
    if now < expires then (some v, c)
    else (none, ⟨without k c.entries, nodup_filter _ c.nodup,
      (List.length_filter_le _ _).trans c.fits⟩)

theorem mem_of_mem_get {now : τ} {k : κ} {c : TtlCache κ ν τ cap} {e : κ × ν × τ}
    (h : e ∈ (c.get now k).2.entries) : e ∈ c.entries := by
  unfold get at h
  split at h
  · exact h
  · split at h
    · exact h
    · exact (List.mem_filter.mp h).1

theorem get_hit {now : τ} {k : κ} {v : ν} {c : TtlCache κ ν τ cap} (h : (c.get now k).1 = some v) :
    ∃ expires, (k, v, expires) ∈ c.entries ∧ now < expires := by
  unfold get at h
  split at h
  · cases h
  · rename_i k' v' expires hfind
    split at h
    · rename_i hlive
      obtain rfl := Option.some.inj h
      have hk : k' = k := by simpa using List.find?_some hfind
      exact ⟨expires, hk ▸ List.mem_of_find?_eq_some hfind, hlive⟩
    · cases h

/-! ### Writing -/

/-- What has not expired. -/
def live (now : τ) (es : List (κ × ν × τ)) : List (κ × ν × τ) := es.filter fun e => now < e.2.2

/-- What is left of a full cache when room is made in it. -/
def evict (now : τ) (cap : ℕ) (es : List (κ × ν × τ)) : List (κ × ν × τ) :=
  if cap ≤ (live now es).length then
    match (live now es).argmin fun e => e.2.2 with
    | some soonest => without soonest.1 (live now es)
    | none => live now es
  else live now es

theorem evict_sublist (now : τ) (cap : ℕ) (es : List (κ × ν × τ)) :
    List.Sublist (evict now cap es) es := by
  unfold evict
  split
  · split
    · exact List.filter_sublist.trans List.filter_sublist
    · exact List.filter_sublist
  · exact List.filter_sublist

/-- There is room for one more. -/
theorem length_evict_lt (now : τ) (hcap : 0 < cap) {es : List (κ × ν × τ)}
    (h : es.length ≤ cap) : (evict now cap es).length < cap := by
  unfold evict
  split
  · rename_i hfull
    split
    · rename_i soonest hsoonest
      have hmem : soonest ∈ live now es := List.argmin_mem hsoonest
      calc (without soonest.1 (live now es)).length
          < (live now es).length := length_without_lt (List.mem_map_of_mem hmem)
        _ ≤ es.length := List.length_filter_le _ _
        _ ≤ cap := h
    · rename_i hnone
      rw [List.argmin_eq_none.mp hnone, List.length_nil] at hfull
      omega
  · omega

/-- The entries among which a new one of the key is put. -/
def room (now : τ) (cap : ℕ) (k : κ) (es : List (κ × ν × τ)) : List (κ × ν × τ) :=
  without k (if cap ≤ es.length ∧ k ∉ es.map Prod.fst then evict now cap es else es)

theorem room_sublist (now : τ) (cap : ℕ) (k : κ) (es : List (κ × ν × τ)) :
    List.Sublist (room now cap k es) es := by
  unfold room
  split
  · exact List.filter_sublist.trans (evict_sublist now cap es)
  · exact List.filter_sublist

theorem length_room_lt (now : τ) (hcap : 0 < cap) (k : κ) {es : List (κ × ν × τ)}
    (h : es.length ≤ cap) : (room now cap k es).length < cap := by
  unfold room
  split
  · exact (List.length_filter_le _ _).trans_lt (length_evict_lt now hcap h)
  · rename_i hroom
    by_cases hk : k ∈ es.map Prod.fst
    · exact (length_without_lt hk).trans_le h
    · have hlt : es.length < cap := by
        by_contra hfull
        exact hroom ⟨by omega, hk⟩
      exact (List.length_filter_le _ _).trans_lt hlt

theorem nodup_cons_room (now : τ) (cap : ℕ) (k : κ) (v : ν) (expires : τ)
    {es : List (κ × ν × τ)} (h : (es.map Prod.fst).Nodup) :
    (((k, v, expires) :: room now cap k es).map Prod.fst).Nodup :=
  List.nodup_cons.mpr ⟨notMem_without k _, h.sublist ((room_sublist now cap k es).map Prod.fst)⟩

/-- Store a value until it expires; without capacity nothing is stored. -/
def insert (now : τ) (k : κ) (v : ν) (expires : τ) (c : TtlCache κ ν τ cap) :
    TtlCache κ ν τ cap :=
  if hcap : 0 < cap then
    ⟨(k, v, expires) :: room now cap k c.entries, nodup_cons_room now cap k v expires c.nodup,
      length_room_lt now hcap k c.fits⟩
  else c

theorem mem_insert {now : τ} {k : κ} {v : ν} {expires : τ} {c : TtlCache κ ν τ cap}
    {e : κ × ν × τ} (h : e ∈ (c.insert now k v expires).entries) :
    0 < cap ∧ e = (k, v, expires) ∨ e ∈ c.entries := by
  unfold insert at h
  split at h
  · rename_i hcap
    rcases List.mem_cons.mp h with rfl | h
    · exact .inl ⟨hcap, rfl⟩
    · exact .inr ((room_sublist now cap k c.entries).subset h)
  · exact .inr h

/-- What was stored is read back until it expires. -/
theorem get_insert {now now' : τ} {k : κ} {v : ν} {expires : τ} (hcap : 0 < cap)
    (hlive : now' < expires) (c : TtlCache κ ν τ cap) :
    ((c.insert now k v expires).get now' k).1 = some v := by
  simp [insert, hcap, get, hlive]

/-! ### What stays and what goes -/

omit [DecidableEq κ] [LinearOrder τ] in
/-- A key has one entry. -/
theorem eq_of_mem {c : TtlCache κ ν τ cap} {e e' : κ × ν × τ} (h : e ∈ c.entries)
    (h' : e' ∈ c.entries) (hkey : e.1 = e'.1) : e = e' :=
  List.inj_on_of_nodup_map c.nodup h h' hkey

/-- Reading drops nothing but an entry of the key that has expired. -/
theorem mem_get {now : τ} {k : κ} {c : TtlCache κ ν τ cap} {e : κ × ν × τ} (he : e ∈ c.entries)
    (hlive : now < e.2.2) : e ∈ (c.get now k).2.entries := by
  unfold get
  split
  · exact he
  · rename_i k' v expires hfind
    split
    · exact he
    · rename_i hexpired
      refine List.mem_filter.mpr ⟨he, decide_eq_true fun hkey => hexpired ?_⟩
      have hk : k' = k := by simpa using List.find?_some hfind
      have heq : e = (k', v, expires) :=
        eq_of_mem he (List.mem_of_find?_eq_some hfind) (hkey.trans hk.symm)
      rw [heq] at hlive
      exact hlive

/-- The entries of other keys that are live stay, where there is room. -/
theorem mem_room {now : τ} {k : κ} {c : TtlCache κ ν τ cap} {e : κ × ν × τ} (he : e ∈ c.entries)
    (hlive : now < e.2.2) (hkey : e.1 ≠ k)
    (hroom : k ∈ c.entries.map Prod.fst ∨ (live now c.entries).length < cap) :
    e ∈ room now cap k c.entries := by
  refine List.mem_filter.mpr ⟨?_, decide_eq_true hkey⟩
  split
  · rename_i hfull
    have hless := hroom.resolve_left hfull.2
    rw [evict, if_neg (not_le.mpr hless)]
    exact List.mem_filter.mpr ⟨he, decide_eq_true hlive⟩
  · exact he

/-- Where there is no room, one entry goes, and it would have expired soonest. -/
theorem room_of_full {now : τ} {k : κ} {c : TtlCache κ ν τ cap} (hcap : 0 < cap)
    (hkey : k ∉ c.entries.map Prod.fst) (hfull : c.entries.length = cap)
    (hlive : ∀ e ∈ c.entries, now < e.2.2) :
    ∃ soonest ∈ c.entries, (∀ e ∈ c.entries, soonest.2.2 ≤ e.2.2) ∧
      ∀ e ∈ c.entries, e ∈ room now cap k c.entries ↔ e ≠ soonest := by
  have hall : live now c.entries = c.entries :=
    List.filter_eq_self.mpr fun e he => decide_eq_true (hlive e he)
  have hroom : room now cap k c.entries = without k (evict now cap c.entries) := by
    rw [room, if_pos ⟨hfull.ge, hkey⟩]
  cases hsoonest : c.entries.argmin fun e => e.2.2 with
  | none =>
    rw [List.argmin_eq_none.mp hsoonest] at hfull
    exact absurd hfull hcap.ne
  | some soonest =>
    have hmem : soonest ∈ c.entries := List.argmin_mem hsoonest
    refine ⟨soonest, hmem, fun e he => ?_, fun e he => ?_⟩
    · exact List.le_of_mem_argmin (f := fun e : κ × ν × τ => e.2.2) he hsoonest
    · have hevict : evict now cap c.entries = without soonest.1 c.entries := by
        rw [evict, hall, if_pos hfull.ge, hsoonest]
      have hother : e.1 ≠ k := fun heq => hkey (heq ▸ List.mem_map_of_mem he)
      rw [hroom, hevict]
      simp only [without, List.mem_filter, he, hother, decide_eq_true_eq, true_and, ne_eq,
        not_false_eq_true, and_true]
      exact not_congr ⟨eq_of_mem he hmem, fun heq => congrArg Prod.fst heq⟩

/-- The new key takes the place of `gone`: the cache was full, with live entries of other keys, and
of these only `gone` is missing, which would have expired soonest. -/
structure MakesRoom (now : τ) (k : κ) (gone : κ × ν × τ) (c c' : TtlCache κ ν τ cap) : Prop where
  full : c.entries.length = cap
  live : ∀ e ∈ c.entries, now < e.2.2
  other : k ∉ c.entries.map Prod.fst
  soonest : ∀ e ∈ c.entries, gone.2.2 ≤ e.2.2
  only : ∀ e ∈ c.entries, e ∈ c'.entries ↔ e ≠ gone

section Insert

variable {now : τ} {k : κ} {v : ν} {expires : τ} {c : TtlCache κ ν τ cap}

theorem entries_insert (hcap : 0 < cap) :
    (c.insert now k v expires).entries = (k, v, expires) :: room now cap k c.entries := by
  rw [insert, dif_pos hcap]

/-- **Eviction.**  A new key in a full cache of live entries takes the place of one of them. -/
theorem insert_makesRoom (hcap : 0 < cap) (hkey : k ∉ c.entries.map Prod.fst)
    (hfull : c.entries.length = cap) (hlive : ∀ e ∈ c.entries, now < e.2.2) :
    ∃ gone ∈ c.entries, MakesRoom now k gone c (c.insert now k v expires) := by
  obtain ⟨gone, hmem, hsoonest, honly⟩ := room_of_full hcap hkey hfull hlive
  refine ⟨gone, hmem, hfull, hlive, hkey, hsoonest, fun e he => ?_⟩
  have hnew : e ≠ (k, v, expires) := by
    rintro rfl
    exact hkey (List.mem_map_of_mem he)
  rw [entries_insert hcap, List.mem_cons, or_iff_right hnew]
  exact honly e he

/-- **What an insertion does to a live entry**: it stays, or it is of the same key, or it makes
room. -/
theorem mem_insert_or {e : κ × ν × τ} (he : e ∈ c.entries) (hlive : now < e.2.2) :
    e ∈ (c.insert now k v expires).entries ∨ e.1 = k ∨
      MakesRoom now k e c (c.insert now k v expires) := by
  have hcap : 0 < cap := (List.length_pos_of_mem he).trans_le c.fits
  by_cases hkey : e.1 = k
  · exact .inr (.inl hkey)
  by_cases hroom : k ∈ c.entries.map Prod.fst ∨ (TtlCache.live now c.entries).length < cap
  · refine .inl ?_
    rw [entries_insert hcap]
    exact List.mem_cons_of_mem _ (mem_room he hlive hkey hroom)
  · obtain ⟨hnew, hcrowded⟩ := not_or.mp hroom
    have hfewer : (TtlCache.live now c.entries).length ≤ c.entries.length :=
      List.length_filter_le _ _
    have hfits := c.fits
    have hsame : (TtlCache.live now c.entries).length = c.entries.length := by omega
    have hall : ∀ e ∈ c.entries, now < e.2.2 := fun e he =>
      of_decide_eq_true (List.length_filter_eq_length_iff.mp hsame e he)
    obtain ⟨gone, -, hgone⟩ := @insert_makesRoom _ _ _ _ _ _ now k v expires c hcap hnew
      (by omega) hall
    by_cases heq : e = gone
    · exact .inr (.inr (heq ▸ hgone))
    · exact .inl ((hgone.only e he).mpr heq)

/-- What was stored is there. -/
theorem mem_insert_self (hcap : 0 < cap) : (k, v, expires) ∈ (c.insert now k v expires).entries := by
  rw [entries_insert hcap]
  exact List.mem_cons_self

/-- Of a key that is stored nothing else is left. -/
theorem eq_of_mem_insert {e : κ × ν × τ} (hcap : 0 < cap)
    (he : e ∈ (c.insert now k v expires).entries) (hkey : e.1 = k) : e = (k, v, expires) :=
  eq_of_mem he (mem_insert_self hcap) hkey

end Insert

/-! ### Listings -/

/-- The order in which a map lists its entries, which is any. -/
structure Listing (ε : Type*) where
  order : List ε → List ε
  perm : ∀ es, (order es).Perm es

def Listing.same (ε : Type*) : Listing ε := ⟨id, fun _ => .rfl⟩

omit [DecidableEq κ] [LinearOrder τ] in
/-- The same cache, listed in another order. -/
def relist (l : Listing (κ × ν × τ)) (c : TtlCache κ ν τ cap) : TtlCache κ ν τ cap where
  entries := l.order c.entries
  nodup := ((l.perm c.entries).map Prod.fst).nodup_iff.mpr c.nodup
  fits := (l.perm c.entries).length_eq.trans_le c.fits

end TtlCache

end OnchainDataMcp.Lib
