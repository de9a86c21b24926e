import InferenceGateway.Auth.Keys
import InferenceGateway.Scripts.PackForBox

/-!
# What the pack clears, and what slips through

An entry is cleared if its path is not denied and no line of it holds a key.  The two
checks of the script see the lines of the manifest in place of the paths, and a line is
the path unless the path is quoted (`mem_manifest`); then the anchors of the deny-list
meet the quotes, and no file is found under the line.  The credential scan further looks at
what a name leads to in the working tree, which need not be what is staged, loses count where a
name is an option of `grep`, and knows the live keys only.

These are all the ways for an entry to be packed without being cleared
(`pack_cleared_iff`).
-/

namespace InferenceGateway

open Py Posix Regex

/-! ## Clearance -/

/-- The bytes of an ASCII string. -/
def asciiBytes (s : Str) : Bytes := s.map Nat.toUInt8

/-- A line holds a key that `mint_key` can return. -/
def HoldsKey (live : Bool) (content : Bytes) : Prop :=
  ∃ line ∈ textLines content, ∃ id key : Bytes, id.length = 6 ∧ key.length = 32 ∧
    asciiBytes (plaintext live (tokenHex id) (tokenUrlsafe key)) <:+: line

/-- A line holds an Anthropic key of the scanned shape. -/
def HoldsAnthropicKey (content : Bytes) : Prop := ∃ line ∈ textLines content, anthropicKey.Found line

/-- What may be packed. -/
structure Staged.Cleared (e : Staged) : Prop where
  path : denied e.path = false
  anthropic : ¬HoldsAnthropicKey e.content
  live : ¬HoldsKey true e.content
  test : ¬HoldsKey false e.content

/-- The path starts with a dash. -/
def Staged.dashed (e : Staged) : Bool := e.path.head? = some 45

/-- The entries the checks pass over: a denied path that is printed in quotes; a key that the
scan does not see, because the path is printed in quotes, because what is found under the path
is not what is staged (nothing, or what a symbolic link leads to), or because some path of the
tree is an option of `grep`; and a test key. -/
def WorkingTree.Slips (t : WorkingTree) (e : Staged) : Prop :=
  (denied e.path = true ∧ quoted e.path = true) ∨
    ((HoldsAnthropicKey e.content ∨ HoldsKey true e.content) ∧
      (quoted e.path = true ∨ t.opened e.path ≠ some e.content ∨
        ∃ d ∈ t.files, d.dashed = true)) ∨
    HoldsKey false e.content

/-! ## The manifest -/

theorem lsFiles_of_not_quoted {path : Bytes} (h : quoted path = false) : lsFiles path = path := by
  rw [lsFiles, h]
  rfl

/-- No byte is printed with a newline. -/
theorem newline_notMem_cQuote (c : UInt8) : (10 : UInt8) ∉ cQuote c := by
  have hall : ∀ n : Fin UInt8.size, (10 : UInt8) ∉ cQuote (UInt8.ofFin n) := by decide +kernel
  exact hall c.toFin

/-- A printed path is one line. -/
theorem newline_notMem_lsFiles (path : Bytes) : (10 : UInt8) ∉ lsFiles path := by
  intro h
  unfold lsFiles at h
  split at h
  · rw [List.mem_append, List.mem_append, List.mem_flatMap] at h
    rcases h with (h | ⟨c, -, h⟩) | h
    · exact absurd (List.mem_singleton.mp h) (by decide)
    · exact newline_notMem_cQuote c h
    · exact absurd (List.mem_singleton.mp h) (by decide)
  · rename_i hq
    exact hq (List.any_eq_true.mpr ⟨10, h, by decide⟩)

namespace WorkingTree

variable {t : WorkingTree} {g : Grep} {e : Staged}

/-- The lines of the manifest are the printed paths. -/
theorem manifest_lines (h : t.files ≠ []) :
    textLines t.manifest = t.files.map fun e ↦ lsFiles e.path := by
  apply List.splitOn_intercalate
  · intro l hl
    obtain ⟨e, -, rfl⟩ := List.mem_map.mp hl
    exact newline_notMem_lsFiles e.path
  · exact fun hnil ↦ h (List.map_eq_nil_iff.mp hnil)

/-- A path that is not quoted is a line of the manifest. -/
theorem mem_manifest (he : e ∈ t.files) (hq : quoted e.path = false) :
    e.path ∈ textLines t.manifest := by
  rw [manifest_lines (List.ne_nil_of_mem he)]
  exact List.mem_map.mpr ⟨e, he, lsFiles_of_not_quoted hq⟩

/-- Without a path that starts with a dash, no line does. -/
theorem line_not_dashed (hd : ∀ d ∈ t.files, d.dashed = false) {line : Bytes}
    (hl : line ∈ textLines t.manifest) : line.head? ≠ some 45 := by
  by_cases hfiles : t.files = []
  · have hline : line = [] := by
      rw [manifest, hfiles] at hl
      simpa [textLines] using hl
    rw [hline]
    simp
  · rw [manifest_lines hfiles] at hl
    obtain ⟨e, he, rfl⟩ := List.mem_map.mp hl
    unfold lsFiles
    split
    · simp
    · exact of_decide_eq_false (hd e he)

/-! ## The checks -/

/-- A denied line that is not empty makes the script fail. -/
theorem mem_deny {lines : List Bytes} {line : Bytes} (hl : line ∈ lines)
    (h : denied line = true) : line ∈ deny lines := by
  obtain ⟨hdeny, hexc⟩ := Bool.and_eq_true_iff.mp h
  exact List.mem_filter.mpr ⟨List.mem_filter.mpr ⟨hl, hdeny⟩, hexc⟩

/-- If no line is an option, the scan reports the files with a credential. -/
theorem mem_scanHits {lines : List Bytes} {f content : Bytes}
    (hd : ∀ line ∈ lines, line.head? ≠ some 45) (hf : f ∈ lines)
    (hopen : t.opened f = some content) (hc : hasCredential content = true) :
    f ∈ t.scanHits g 0 lines := by
  induction lines with
  | nil => cases hf
  | cons l lines ih =>
      obtain ⟨hl, hlines⟩ := List.forall_mem_cons.mp hd
      rw [scanHits]
      rcases List.mem_cons.mp hf with rfl | hf
      · simp [hopen, hl, hc]
      · have hrest := ih hlines hf
        cases t.opened l with
        | none => exact hrest
        | some c =>
            dsimp only
            rw [if_neg hl]
            exact List.mem_append_right _ hrest

/-- What has been written has passed both checks. -/
theorem of_wrote {dryRun : Bool} {packed : List Staged} (h : t.pack g dryRun = .wrote packed) :
    packed = t.files ∧ (∀ l ∈ deny (textLines t.manifest), l = []) ∧
      t.scanHits g 0 (textLines t.manifest) = [] := by
  unfold pack at h
  dsimp only at h
  split_ifs at h with hroot hgateway hfail hdry
  cases h
  rw [Bool.or_eq_true, not_or] at hfail
  refine ⟨rfl, ?_, ?_⟩
  · simpa using hfail.1
  · simpa using hfail.2

end WorkingTree

/-! ## Keys and their shape -/

theorem asciiBytes_mem {s : Str} {p : Nat → Bool} (hp : ∀ c, p c = true → c < 128)
    (hs : ∀ c ∈ s, p c = true) : ∀ b ∈ asciiBytes s, p b.toNat = true := by
  intro b hb
  obtain ⟨c, hc, rfl⟩ := List.mem_map.mp hb
  have hlt : c < 2 ^ 8 := Nat.lt_trans (hp c (hs c hc)) (by decide)
  have hback : c.toUInt8.toNat = c := Nat.mod_eq_of_lt hlt
  rw [hback]
  exact hs c hc

/-- The parts of a live key, as bytes. -/
theorem asciiBytes_plaintext (keyid secret : Str) : asciiBytes (plaintext true keyid secret) =
    bytes "bkn_live_" ++ (asciiBytes keyid ++ (bytes "_" ++ (asciiBytes secret ++ []))) := by
  have hpre : (str "bkn_live_").map Nat.toUInt8 = bytes "bkn_live_" := by decide
  have hsep : (str "_").map Nat.toUInt8 = bytes "_" := by decide
  simp only [asciiBytes, plaintext, if_true, List.map_append, List.append_assoc, List.append_nil,
    hpre, hsep]

/-- A live key that `mint_key` can return has the shape the scan looks for. -/
theorem gatewayKey_matches {id key a b : Bytes} (hid : id.length = 6) (hkey : key.length = 32) :
    gatewayKey.Matches a (asciiBytes (plaintext true (tokenHex id) (tokenUrlsafe key))) b := by
  have hidLen : (asciiBytes (tokenHex id)).length = 12 := by
    rw [asciiBytes, List.length_map, length_tokenHex, hid]
  have hkeyLen : 30 ≤ (asciiBytes (tokenUrlsafe key)).length := by
    rw [asciiBytes, List.length_map, length_tokenUrlsafe, hkey]
    decide
  rw [asciiBytes_plaintext]
  apply matches_cat_cons (matches_lit.mpr rfl)
  apply matches_cat_cons (matches_exactly.mpr ⟨hidLen, ?_⟩)
  · apply matches_cat_cons (matches_lit.mpr rfl)
    apply matches_cat_cons (matches_atLeast.mpr ⟨hkeyLen, ?_⟩) matches_cat_nil
    exact asciiBytes_mem (fun _ ↦ isUrlsafe_lt) fun c hc ↦ isUrlsafe_of_mem_tokenUrlsafe hc
  · exact asciiBytes_mem (fun _ ↦ isHex_lt) fun c hc ↦ isHex_of_mem_tokenHex hc

theorem holdsAnthropicKey_iff {content : Bytes} :
    HoldsAnthropicKey content ↔ ∃ line ∈ textLines content, anthropicKey.search line = true := by
  simp only [HoldsAnthropicKey, search_iff]

instance (content : Bytes) : Decidable (HoldsAnthropicKey content) :=
  decidable_of_iff _ holdsAnthropicKey_iff.symm

/-- A line that holds a key is at least as long as a key. -/
theorem length_le_of_holdsKey {live : Bool} {content : Bytes} (h : HoldsKey live content) :
    ∃ line ∈ textLines content, 65 ≤ line.length := by
  obtain ⟨line, hline, id, key, hid, hkey, hinfix⟩ := h
  have hprefix : (if live then str "bkn_live_" else str "bkn_test_").length = 9 := by
    cases live <;> decide
  have hsep : (str "_").length = 1 := by decide
  refine ⟨line, hline, le_trans (le_of_eq ?_) hinfix.length_le⟩
  rw [asciiBytes, List.length_map, plaintext, List.length_append, List.length_append,
    List.length_append, hprefix, hsep, length_tokenHex, length_tokenUrlsafe, hid, hkey]

/-- The scan knows the Anthropic keys and the live keys. -/
theorem hasCredential_of_holds {content : Bytes}
    (h : HoldsAnthropicKey content ∨ HoldsKey true content) : hasCredential content = true := by
  rw [hasCredential, List.any_eq_true]
  rcases h with ⟨line, hline, a, w, b, hl, hw⟩ | ⟨line, hline, id, key, hid, hkey, a, b, hl⟩
  · exact ⟨line, hline, search_iff.mpr ⟨a, w, b, hl, .inl hw⟩⟩
  · refine ⟨line, hline, search_iff.mpr ⟨a, _, b, ?_, .inr (gatewayKey_matches hid hkey)⟩⟩
    rw [← hl, List.append_assoc]

/-! ## The tarball -/

namespace WorkingTree

/-- Whenever the script writes the tarball, everything it packs is cleared if and only if
nothing slips through. -/
theorem pack_cleared_iff (t : WorkingTree) (g : Grep) (dryRun : Bool) {packed : List Staged}
    (h : t.pack g dryRun = .wrote packed) :
    (∀ e ∈ packed, e.Cleared) ↔ ∀ e ∈ t.files, ¬t.Slips e := by
  obtain ⟨rfl, hdeny, hscan⟩ := of_wrote h
  constructor
  · intro hcleared e he hslips
    have hc := hcleared e he
    rcases hslips with ⟨hpath, -⟩ | ⟨hkey | hkey, -⟩ | hkey
    · rw [hc.path] at hpath
      cases hpath
    · exact hc.anthropic hkey
    · exact hc.live hkey
    · exact hc.test hkey
  · intro hslips e he
    have hpath : denied e.path = false := by
      by_contra hden
      rw [Bool.not_eq_false] at hden
      cases hq : quoted e.path with
      | true => exact hslips e he (.inl ⟨hden, hq⟩)
      | false => exact e.path_ne_nil (hdeny e.path (mem_deny (mem_manifest he hq) hden))
    -- a key the scan knows, in a file under its own name, is found
    have hkey : ¬(HoldsAnthropicKey e.content ∨ HoldsKey true e.content) := by
      intro hkey
      have hunseen : ¬(quoted e.path = true ∨ t.opened e.path ≠ some e.content ∨
          ∃ d ∈ t.files, d.dashed = true) :=
        fun hunseen ↦ hslips e he (.inr (.inl ⟨hkey, hunseen⟩))
      rw [not_or, not_or, not_not] at hunseen
      obtain ⟨hq, hopen, hdash⟩ := hunseen
      have hdash : ∀ d ∈ t.files, d.dashed = false := by
        intro d hd
        by_contra hne
        rw [Bool.not_eq_false] at hne
        exact hdash ⟨d, hd, hne⟩
      have hhit : e.path ∈ t.scanHits g 0 (textLines t.manifest) :=
        mem_scanHits (fun line hl ↦ line_not_dashed hdash hl)
          (mem_manifest he (Bool.not_eq_true _ ▸ hq)) hopen (hasCredential_of_holds hkey)
      rw [hscan] at hhit
      cases hhit
    exact ⟨hpath, fun hk ↦ hkey (.inl hk), fun hk ↦ hkey (.inr hk),
      fun hk ↦ hslips e he (.inr (.inr hk))⟩

/-! ## A tree that passes, and one that should not -/

/-- The working tree of some regular files, all of them checked out. -/
def ofFiles (files : List Staged) : WorkingTree where
  root := bytes "/srv/inference"
  gateway := true
  files := files
  opened name := (files.find? fun d ↦ d.path == name).map Staged.content

/-- A `grep` that fails on every option. -/
def sampleGrep : Grep := ⟨fun _ _ ↦ (false, 0)⟩

/-- Both exceptions of the deny-list, a path that is printed in quotes, and two texts that start
like a key. -/
def clearedTree : WorkingTree :=
  ofFiles [⟨bytes "gateway/__init__.py", [], by decide⟩,
    ⟨bytes ".env.example", bytes "API_KEY_PEPPER=\n", by decide⟩,
    ⟨bytes "tests/fixtures/audit.jsonl", bytes "bkn_test_0123456789ab_\n", by decide⟩,
    ⟨bytes "tests/test_auth.py", bytes "import pytest\nBAD = \"sk-ant-something\"\n", by decide⟩,
    ⟨[0xC3, 0xA9] ++ bytes " note.txt", bytes "bkn_live_ and 12 hex digits", by decide⟩]

/-- The tree is packed, and is cleared. -/
theorem pack_cleared_iff_clearedTree :
    clearedTree.pack sampleGrep false = .wrote clearedTree.files ∧
      ∀ e ∈ clearedTree.files, e.Cleared := by
  have hwrote : clearedTree.pack sampleGrep false = .wrote clearedTree.files := by
    decide +kernel
  refine ⟨hwrote, (pack_cleared_iff clearedTree sampleGrep false hwrote).mpr ?_⟩
  have hpath : ∀ e ∈ clearedTree.files, ¬(denied e.path = true ∧ quoted e.path = true) := by
    decide +kernel
  have hanthropic : ∀ e ∈ clearedTree.files, ¬HoldsAnthropicKey e.content := by decide +kernel
  have hshort : ∀ e ∈ clearedTree.files, ∀ line ∈ textLines e.content, line.length < 65 := by
    decide +kernel
  have hkey (live : Bool) : ∀ e ∈ clearedTree.files, ¬HoldsKey live e.content := by
    intro e he hk
    obtain ⟨line, hline, hlong⟩ := length_le_of_holdsKey hk
    exact absurd hlong (not_le.mpr (hshort e he line hline))
  rintro e he (hslip | ⟨hslip | hslip, -⟩ | hslip)
  · exact hpath e he hslip
  · exact hanthropic e he hslip
  · exact hkey true e he hslip
  · exact hkey false e he hslip

/-- A key of zeros. -/
def zeroKey (live : Bool) : Bytes :=
  asciiBytes (plaintext live (tokenHex (List.replicate 6 0)) (tokenUrlsafe (List.replicate 32 0)))

theorem holdsKey_zeroKey (live : Bool) : HoldsKey live (zeroKey live) := by
  have hline : zeroKey live ∈ textLines (zeroKey live) := by cases live <;> decide +kernel
  exact ⟨zeroKey live, hline, _, _, List.length_replicate, List.length_replicate, List.infix_rfl⟩

/-- A file named `é.jsonl` with a live key, and a note with a test key. -/
def leakyTree : WorkingTree :=
  ofFiles [⟨[0xC3, 0xA9] ++ bytes ".jsonl", zeroKey true, by decide⟩,
    ⟨bytes "note.txt", zeroKey false, by decide⟩]

/-- The script writes the tarball, with a denied path, a live key and a test key in it. -/
theorem pack_leaks : leakyTree.pack sampleGrep false = .wrote leakyTree.files ∧
    (∃ e ∈ leakyTree.files, denied e.path = true ∧ HoldsKey true e.content) ∧
    ∃ e ∈ leakyTree.files, HoldsKey false e.content := by
  refine ⟨by decide +kernel, ⟨_, List.mem_cons_self, by decide +kernel, holdsKey_zeroKey true⟩, ?_⟩
  exact ⟨_, List.mem_cons_of_mem _ List.mem_cons_self, holdsKey_zeroKey false⟩

end WorkingTree

end InferenceGateway
