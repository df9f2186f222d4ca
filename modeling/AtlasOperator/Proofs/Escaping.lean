import Mathlib.Algebra.Group.Nat.Basic
import AtlasOperator.Lib.UrlParse

namespace AtlasOperator.Proofs

/-- The UTF-8 encoding of a code point, in numbers. -/
def utf8Nat (v : Nat) : List Nat :=
  if v ≤ 127 then [v]
  else if v ≤ 2047 then [v / 64 + 192, v % 64 + 128]
  else if v ≤ 65535 then [v / 4096 + 224, v / 64 % 64 + 128, v % 64 + 128]
  else [v / 262144 + 240, v / 4096 % 64 + 128, v / 64 % 64 + 128, v % 64 + 128]

section Utf8

theorem toNat_shiftRight (v s : UInt32) (hs : s.toNat < 32) :
    (v >>> s).toNat = v.toNat / 2 ^ s.toNat := by
  show (v.toBitVec >>> (s.toNat % 32)).toNat = _
  rw [BitVec.toNat_ushiftRight, Nat.shiftRight_eq_div_pow, Nat.mod_eq_of_lt hs]
  rfl

theorem toNat_toUInt8 (v : UInt32) : v.toUInt8.toNat = v.toNat % 256 := by
  simp [UInt32.toUInt8, UInt8.toNat, Nat.toUInt8, UInt8.ofNat]

theorem toNat_and_or (y m k : UInt8) (j : Nat) (hm : m.toNat = 2 ^ j - 1)
    (hor : ∀ n < 2 ^ j, n ||| k.toNat = n + k.toNat) :
    (y &&& m ||| k).toNat = y.toNat % 2 ^ j + k.toNat := by
  show (y.toBitVec &&& m.toBitVec ||| k.toBitVec).toNat = _
  rw [BitVec.toNat_or, BitVec.toNat_and]
  change (y.toNat &&& m.toNat) ||| k.toNat = _
  rw [hm, Nat.and_pow_two_sub_one_eq_mod]
  exact hor _ (Nat.mod_lt _ (Nat.two_pow_pos j))

theorem le_iff_toNat (a b : UInt32) : a ≤ b ↔ a.toNat ≤ b.toNat := by
  rw [UInt32.le_def, BitVec.le_def]; rfl

theorem utf8EncodeChar_toNat (c : Char) :
    (String.utf8EncodeChar c).map UInt8.toNat = utf8Nat c.toNat := by
  have hc : c.toNat < 0x110000 := by
    rcases c.valid with h | h <;> simp only [Char.toNat, UInt32.toNat] at h ⊢ <;> omega
  have hv : c.val.toNat = c.toNat := rfl
  unfold String.utf8EncodeChar utf8Nat
  simp only [le_iff_toNat, hv, show (127 : UInt32).toNat = 127 from rfl,
    show (2047 : UInt32).toNat = 2047 from rfl, show (65535 : UInt32).toNat = 65535 from rfl]
  split_ifs with h₁ h₂ h₃ <;>
    simp only [List.map_cons, List.map_nil, toNat_toUInt8,
      toNat_and_or _ 31 192 5 rfl (by decide), toNat_and_or _ 63 128 6 rfl (by decide),
      toNat_and_or _ 15 224 4 rfl (by decide), toNat_and_or _ 7 240 3 rfl (by decide),
      toNat_shiftRight _ 6 (by decide), toNat_shiftRight _ 12 (by decide),
      toNat_shiftRight _ 18 (by decide), hv, show (6 : UInt32).toNat = 6 from rfl,
      show (12 : UInt32).toNat = 12 from rfl, show (18 : UInt32).toNat = 18 from rfl,
      show (192 : UInt8).toNat = 192 from rfl, show (128 : UInt8).toNat = 128 from rfl,
      show (224 : UInt8).toNat = 224 from rfl, show (240 : UInt8).toNat = 240 from rfl,
      List.cons.injEq, and_true] <;> omega

def utf8Width (b : Nat) : Nat := if b < 128 then 1 else if b < 224 then 2 else if b < 240 then 3 else 4

def utf8Value : List Nat → Nat
  | [b] => b
  | [b, c] => (b - 192) * 64 + (c - 128)
  | [b, c, d] => (b - 224) * 4096 + (c - 128) * 64 + (d - 128)
  | [b, c, d, e] => (b - 240) * 262144 + (c - 128) * 4096 + (d - 128) * 64 + (e - 128)
  | _ => 0

theorem utf8Nat_width (v : Nat) : ∃ b bs, utf8Nat v = b :: bs ∧ bs.length + 1 = utf8Width b := by
  unfold utf8Nat
  split_ifs <;> refine ⟨_, _, rfl, ?_⟩ <;>
    simp only [utf8Width, List.length_cons, List.length_nil] <;> split_ifs <;> omega

theorem utf8Value_utf8Nat (v : Nat) : utf8Value (utf8Nat v) = v := by
  have h₁ := Nat.div_add_mod v 64
  have h₂ := Nat.div_add_mod (v / 64) 64
  have h₃ := Nat.div_add_mod (v / 4096) 64
  rw [Nat.div_div_eq_div_mul] at h₂ h₃
  unfold utf8Nat
  split_ifs <;> simp only [utf8Value, Nat.add_sub_cancel] <;> omega

/-- UTF-8 is a prefix code: an encoding followed by anything determines both. -/
theorem utf8Nat_append_inj {a b : Nat} {r s : Bytes} (h : utf8Nat a ++ r = utf8Nat b ++ s) :
    a = b ∧ r = s := by
  obtain ⟨x, xs, hx, hxl⟩ := utf8Nat_width a
  obtain ⟨y, ys, hy, hyl⟩ := utf8Nat_width b
  rw [hx, hy, List.cons_append, List.cons_append] at h
  obtain ⟨rfl, ht⟩ := List.cons.inj h
  obtain ⟨rfl, rfl⟩ := List.append_inj ht (by omega : xs.length = ys.length)
  refine ⟨?_, rfl⟩
  calc a = utf8Value (utf8Nat a) := (utf8Value_utf8Nat a).symm
    _ = utf8Value (utf8Nat b) := by rw [hx, hy]
    _ = b := utf8Value_utf8Nat b

theorem eq_of_toNat_eq {a b : Char} (h : a.toNat = b.toNat) : a = b := by
  rw [← Char.ofNat_toNat a, h, Char.ofNat_toNat]

theorem bytesOf_cons (c : Char) (s : List Char) : bytesOf ⟨c :: s⟩ = utf8Nat c.toNat ++ bytesOf ⟨s⟩ := by
  simp [bytesOf, utf8EncodeChar_toNat]

/-- Go's bytes of a string determine it. -/
theorem bytesOf_injective : Function.Injective bytesOf := by
  rintro ⟨a⟩ ⟨b⟩ h
  induction a generalizing b with
  | nil => cases b with
    | nil => rfl
    | cons d t =>
      obtain ⟨x, xs, hx, -⟩ := utf8Nat_width d.toNat
      rw [bytesOf_cons, hx] at h
      cases h
  | cons c t ih => cases b with
    | nil =>
      obtain ⟨x, xs, hx, -⟩ := utf8Nat_width c.toNat
      rw [bytesOf_cons, hx] at h
      cases h
    | cons d u =>
      rw [bytesOf_cons, bytesOf_cons] at h
      obtain ⟨hcd, ht⟩ := utf8Nat_append_inj h
      obtain ⟨⟩ := ih u ht
      rw [eq_of_toNat_eq hcd]

end Utf8

section Escape

theorem upperhex_facts : ∀ n < 16, (upperhex n).toNat < 128 ∧ ishex (upperhex n).toNat = true ∧
    unhex (upperhex n).toNat = n ∧
    upperhex n ∉ ['%', '+', '#', '?', '/', '@', ':', '&', '=', ';', '[', ']'] := by
  decide

theorem utf8Nat_ascii {v : Nat} (h : v < 128) : utf8Nat v = [v] := by
  simp [utf8Nat, show v ≤ 127 by omega]

theorem bytesOf_mk (l : List Char) : bytesOf ⟨l⟩ = l.flatMap fun c => utf8Nat c.toNat := by
  simp [bytesOf, utf8EncodeChar_toNat]

theorem bytesOf_ascii : ∀ {l : List Char}, (∀ c ∈ l, c.toNat < 128) → bytesOf ⟨l⟩ = l.map Char.toNat
  | [], _ => rfl
  | c :: l, h => by
    rw [bytesOf_cons, utf8Nat_ascii (h c (List.mem_cons_self _ _)),
      bytesOf_ascii fun d hd => h d (List.mem_cons_of_mem _ hd)]
    rfl

theorem mem_escapeChar {mode : Encoding} {c d : Char} (hd : d ∈ escapeChar mode c) :
    d = '%' ∨ (∃ n < 16, d = upperhex n) ∨ (d = '+' ∧ mode = .queryComponent) ∨
      (d = c ∧ c.toNat < 128 ∧ shouldEscape c mode = false) := by
  unfold escapeChar percent at hd
  split_ifs at hd with h₁ h₂ h₃
  · simp only [List.mem_singleton] at hd
    exact .inr (.inr (.inl ⟨hd, h₂.2⟩))
  · simp only [List.mem_cons, List.mem_singleton, List.not_mem_nil, or_false] at hd
    rcases hd with rfl | rfl | rfl
    · exact .inl rfl
    · exact .inr (.inl ⟨_, by omega, rfl⟩)
    · exact .inr (.inl ⟨_, Nat.mod_lt _ (by omega), rfl⟩)
  · simp only [List.mem_singleton] at hd
    exact .inr (.inr (.inr ⟨hd, h₁, by simpa using h₃⟩))
  · obtain ⟨b, -, hb⟩ := List.mem_flatMap.mp hd
    have := UInt8.toNat_lt_size b
    simp only [List.mem_cons, List.mem_singleton, List.not_mem_nil, or_false] at hb
    rcases hb with rfl | rfl | rfl
    · exact .inl rfl
    · exact .inr (.inl ⟨_, by simp only [UInt8.size] at this; omega, rfl⟩)
    · exact .inr (.inl ⟨_, Nat.mod_lt _ (by omega), rfl⟩)

theorem escapeChar_ascii {mode : Encoding} {c d : Char} (hd : d ∈ escapeChar mode c) : d.toNat < 128 := by
  rcases mem_escapeChar hd with rfl | ⟨n, hn, rfl⟩ | ⟨rfl, -⟩ | ⟨rfl, h, -⟩
  · decide
  · exact (upperhex_facts n hn).1
  · decide
  · exact h

theorem bytesOf_escape (mode : Encoding) (s : String) :
    bytesOf (escape s mode) = (s.toList.flatMap (escapeChar mode)).map Char.toNat :=
  bytesOf_ascii fun _ hd => by
    obtain ⟨c, -, hc⟩ := List.mem_flatMap.mp hd
    exact escapeChar_ascii hc

theorem unescapeBytes_cons {mode : Encoding} {x : Nat} (hp : x ≠ '%'.toNat) (rest : Bytes) :
    unescapeBytes mode (x :: rest) =
      (if x = '+'.toNat ∧ mode = .queryComponent then ' '.toNat else x) :: unescapeBytes mode rest := by
  rw [unescapeBytes.eq_def]
  simp only [if_neg hp]
  split_ifs <;> rfl

theorem unescapeBytes_raw {mode : Encoding} {x : Nat} (hp : x ≠ '%'.toNat)
    (hq : ¬ (x = '+'.toNat ∧ mode = .queryComponent)) (rest : Bytes) :
    unescapeBytes mode (x :: rest) = x :: unescapeBytes mode rest := by
  rw [unescapeBytes.eq_def]
  simp only [if_neg hp, if_neg hq]

theorem unescapeBytes_percent (mode : Encoding) {b : Nat} (hb : b < 256) (rest : Bytes) :
    unescapeBytes mode ((percent b).map Char.toNat ++ rest) = b :: unescapeBytes mode rest := by
  obtain ⟨-, -, h₁, -⟩ := upperhex_facts (b / 16) (by omega)
  obtain ⟨-, -, h₂, -⟩ := upperhex_facts (b % 16) (Nat.mod_lt _ (by omega))
  simp only [percent, List.map_cons, List.map_nil, List.cons_append, List.nil_append]
  rw [unescapeBytes, if_pos rfl]
  simp only [h₁, h₂]
  congr 1
  omega

theorem unescapeBytes_percents (mode : Encoding) : ∀ (bs : List UInt8) (rest : Bytes),
    unescapeBytes mode ((bs.flatMap fun b => percent b.toNat).map Char.toNat ++ rest) =
      bs.map UInt8.toNat ++ unescapeBytes mode rest
  | [], _ => rfl
  | b :: bs, rest => by
    rw [List.flatMap_cons, List.map_append, List.append_assoc,
      unescapeBytes_percent mode (UInt8.toNat_lt_size b), unescapeBytes_percents mode bs rest]
    rfl

theorem shouldEscape_percent (mode : Encoding) : shouldEscape '%' mode = true := by
  cases mode <;> decide

theorem unescapeBytes_escapeChar (mode : Encoding) (c : Char) (rest : Bytes) :
    unescapeBytes mode ((escapeChar mode c).map Char.toNat ++ rest) =
      utf8Nat c.toNat ++ unescapeBytes mode rest := by
  unfold escapeChar
  split_ifs with h₁ h₂ h₃
  · obtain ⟨rfl, hm⟩ := h₂
    rw [List.map_singleton, List.singleton_append, unescapeBytes.eq_def]
    simp only [if_neg (show '+'.toNat ≠ '%'.toNat by decide), hm, and_self, if_true]
    rfl
  · rw [unescapeBytes_percent mode (by omega), utf8Nat_ascii h₁]
    rfl
  · have hp : c ≠ '%' := fun h => by rw [h, shouldEscape_percent] at h₃; exact h₃ rfl
    have hq : ¬ (c = '+' ∧ mode = .queryComponent) := fun ⟨hc, hm⟩ => by
      rw [hc, hm] at h₃; exact h₃ (by decide)
    rw [utf8Nat_ascii h₁, List.map_singleton, List.singleton_append, List.singleton_append,
      unescapeBytes_raw]
    · exact fun h => hp (by rw [← Char.ofNat_toNat c, h]; rfl)
    · exact fun ⟨h, hm⟩ => hq ⟨by rw [← Char.ofNat_toNat c, h]; rfl, hm⟩
  · rw [unescapeBytes_percents, utf8EncodeChar_toNat]

/-- Unescaping what `escape` wrote, followed by anything, gives the string's
bytes back first. -/
theorem unescapeBytes_escape (mode : Encoding) (s : String) (rest : Bytes) :
    unescapeBytes mode (bytesOf (escape s mode) ++ rest) = bytesOf s ++ unescapeBytes mode rest := by
  rw [bytesOf_escape]
  obtain ⟨l⟩ := s
  rw [bytesOf_mk]
  induction l with
  | nil => rfl
  | cons c l ih =>
    simp only [String.toList, List.flatMap_cons, List.map_append, List.append_assoc,
      unescapeBytes_escapeChar] at ih ⊢
    rw [ih]

/-- A delimiter that `escape` escapes in `mode` never stands in its output. -/
theorem not_mem_bytesOf_escape {mode : Encoding} {d : Char}
    (hd : d ∈ ['#', '?', '/', '@', ':', '&', '=', ';', '[']) (he : shouldEscape d mode = true)
    (s : String) : d.toNat ∉ bytesOf (escape s mode) := by
  rw [bytesOf_escape]
  intro hm
  obtain ⟨e, hm, hde⟩ := List.mem_map.mp hm
  obtain ⟨c, -, hc⟩ := List.mem_flatMap.mp hm
  obtain rfl := eq_of_toNat_eq hde
  rcases mem_escapeChar hc with rfl | ⟨n, hn, rfl⟩ | ⟨rfl, -⟩ | ⟨rfl, -, h⟩
  · simp at hd
  · exact (upperhex_facts n hn).2.2.2 ((show ['#', '?', '/', '@', ':', '&', '=', ';', '['] ⊆
      ['%', '+', '#', '?', '/', '@', ':', '&', '=', ';', '[', ']'] by decide) hd)
  · simp at hd
  · rw [he] at h; cases h

theorem unescapeError_raw {m : Encoding} (hm : m ≠ .host ∧ m ≠ .zone) {x : Nat} (hp : x ≠ '%'.toNat)
    (rest : Bytes) : unescapeError m (x :: rest) = unescapeError m rest := by
  rw [unescapeError.eq_def]
  simp only [if_neg hp]
  split_ifs with h₁ h₂ <;> first | rfl | (exfalso; rcases h₂.1 with h | h <;> simp_all)

theorem unescapeError_percent {m : Encoding} (hm : m ≠ .host ∧ m ≠ .zone) {b : Nat} (hb : b < 256)
    (rest : Bytes) : unescapeError m ((percent b).map Char.toNat ++ rest) = unescapeError m rest := by
  obtain ⟨-, h₁, -, -⟩ := upperhex_facts (b / 16) (by omega)
  obtain ⟨-, h₂, -, -⟩ := upperhex_facts (b % 16) (Nat.mod_lt _ (by omega))
  simp only [percent, List.map_cons, List.map_nil, List.cons_append, List.nil_append]
  rw [unescapeError.eq_def]
  simp [h₁, h₂, hm.1, hm.2]

/-- What `escape` writes is well formed for every mode but a host's. -/
theorem unescapeError_escape {m : Encoding} (hm : m ≠ .host ∧ m ≠ .zone) (mode : Encoding)
    (s : String) (rest : Bytes) :
    unescapeError m (bytesOf (escape s mode) ++ rest) = unescapeError m rest := by
  rw [bytesOf_escape]
  obtain ⟨l⟩ := s
  induction l with
  | nil => rfl
  | cons c l ih =>
    simp only [String.toList, List.flatMap_cons, List.map_append, List.append_assoc] at ih ⊢
    rw [← ih]
    unfold escapeChar
    split_ifs with h₁ h₂ h₃
    · exact unescapeError_raw hm (by decide) _
    · exact unescapeError_percent hm (by omega) _
    · refine unescapeError_raw hm (fun h => ?_) _
      rw [eq_of_toNat_eq h, shouldEscape_percent] at h₃
      exact h₃ rfl
    · generalize String.utf8EncodeChar c = bs
      induction bs with
      | nil => rfl
      | cons b bs ihb =>
        rw [List.flatMap_cons, List.map_append, List.append_assoc,
          unescapeError_percent hm (UInt8.toNat_lt_size b), ihb]

theorem unescapeBytes_append (mode : Encoding) {m : Encoding} {a : Bytes} (h : unescapeError m a = none)
    (b : Bytes) : unescapeBytes mode (a ++ b) = unescapeBytes mode a ++ unescapeBytes mode b := by
  induction a using unescapeError.induct m with
  | case1 => rfl
  | case2 | case3 | case4 | case6 | case8 => rw [unescapeError.eq_def] at h; simp_all
  | case5 x y rest h₁ h₂ h₃ ih =>
    simp only [unescapeError, if_pos rfl, if_neg h₁, if_neg h₂, if_neg h₃] at h
    simp [unescapeBytes, ih h]
  | case7 rest _ ih =>
    rw [unescapeError.eq_def] at h
    simp only [if_neg (show '+'.toNat ≠ '%'.toNat by decide), if_true] at h
    rw [List.cons_append, unescapeBytes_cons (by decide), unescapeBytes_cons (by decide), ih h]
    rfl
  | case9 x rest h₁ h₂ h₃ ih =>
    rw [unescapeError.eq_def] at h
    simp only [if_neg h₁, if_neg h₂, if_neg h₃] at h
    rw [List.cons_append, unescapeBytes_cons h₁, unescapeBytes_cons h₁, ih h]
    rfl

end Escape

section Cut

variable {sep : Nat}

theorem cut_append_cons : ∀ {x : Bytes}, sep ∉ x → ∀ y, cut sep (x ++ sep :: y) = (x, y, true)
  | [], _, y => by simp [cut]
  | c :: x, h, y => by
    rw [List.mem_cons, not_or] at h
    simp [cut, Ne.symm h.1, cut_append_cons h.2 y]

theorem cut_of_not_mem : ∀ {x : Bytes}, sep ∉ x → cut sep x = (x, [], false)
  | [], _ => rfl
  | c :: x, h => by
    rw [List.mem_cons, not_or] at h
    simp [cut, Ne.symm h.1, cut_of_not_mem h.2]

theorem cut_found : ∀ {s : Bytes}, (cut sep s).2.2 = true → s = (cut sep s).1 ++ sep :: (cut sep s).2.1
  | [], h => by simp [cut] at h
  | c :: s, h => by
    by_cases hc : c = sep
    · simp [cut, hc]
    · simp only [cut, hc, if_false] at h ⊢
      rw [List.cons_append, ← cut_found h]

theorem cutLast_append_cons {y : Bytes} (hy : sep ∉ y) (x : Bytes) :
    cutLast sep (x ++ sep :: y) = some (x, y) := by
  rw [cutLast, List.reverse_append, List.reverse_cons, List.append_assoc, List.singleton_append,
    cut_append_cons (by simpa using hy)]
  simp

theorem cutLast_of_not_mem {x : Bytes} (hx : sep ∉ x) : cutLast sep x = none := by
  rw [cutLast, cut_of_not_mem (by simpa using hx)]

theorem cutLast_some {s x y : Bytes} (h : cutLast sep s = some (x, y)) : s = x ++ sep :: y := by
  unfold cutLast at h
  split at h
  · rename_i after before hc
    obtain ⟨rfl, rfl⟩ := Prod.mk.inj (Option.some.inj h)
    have := @cut_found sep s.reverse (by rw [hc])
    rw [hc] at this
    simpa using congrArg List.reverse this
  · cases h

theorem cutPercent25_some : ∀ {s x y : Bytes}, cutPercent25 s = some (x, y) → s = x ++ y
  | [], _, _, h => by cases h
  | c :: s, x, y, h => by
    unfold cutPercent25 at h
    split_ifs at h
    · obtain ⟨rfl, rfl⟩ := Prod.mk.inj (Option.some.inj h)
      rfl
    · obtain ⟨⟨x', y'⟩, h', he⟩ := Option.map_eq_some'.mp h
      obtain ⟨rfl, rfl⟩ := Prod.mk.inj he
      rw [cutPercent25_some h']
      rfl

end Cut

section Parse

theorem except_bind_eq_ok {ε α β : Type} {x : Except ε α} {f : α → Except ε β} {b : β}
    (h : (x >>= f) = .ok b) : ∃ a, x = .ok a ∧ f a = .ok b := by
  cases x with
  | error e => cases h
  | ok a => exact ⟨a, rfl, h⟩

theorem unescape_ok {s y : Bytes} {mode : Encoding} (h : unescape s mode = .ok y) :
    unescapeError mode s = none ∧ y = unescapeBytes mode s := by
  unfold unescape at h
  split at h
  · cases h
  · exact ⟨‹_›, (Except.ok.inj h).symm⟩

theorem unescapeBytes_eq_of_ne {m m' : Encoding} (hm : m ≠ .queryComponent) (hm' : m' ≠ .queryComponent)
    (s : Bytes) : unescapeBytes m s = unescapeBytes m' s := by
  induction s using unescapeBytes.induct m with
  | case1 => rfl
  | case2 x y rest ih => simp [unescapeBytes, ih]
  | case3 rest h =>
    rw [unescapeBytes.eq_def, unescapeBytes.eq_def]
    split <;> simp_all
  | case4 x rest _ h => exact absurd h.2 hm
  | case5 x rest hp _ ih => rw [unescapeBytes_cons hp, unescapeBytes_cons hp, ih]; simp [hm, hm']

theorem unescape_escape_ok {mode : Encoding} {H : String} {y : Bytes}
    (h : unescape (bytesOf (escape H mode)) mode = .ok y) : y = bytesOf H := by
  rw [(unescape_ok h).2, ← List.append_nil (bytesOf (escape H mode)), unescapeBytes_escape]
  exact List.append_nil _

/-- However `parseHost` reads an escaped host, a host it returns is the original's bytes:
the zone is cut at a `%25` or a `]`, both boundaries of one character's escape. -/
theorem parseHost_escape {H : String} {h : Bytes} (hp : parseHost (bytesOf (escape H .host)) = .ok h) :
    h = bytesOf H := by
  unfold parseHost at hp
  split_ifs at hp
  · split at hp
    · cases hp
    · rename_i literal colonPort hl
      split_ifs at hp
      split at hp
      · rename_i host1 zone hz
        obtain ⟨a, ha, hp⟩ := except_bind_eq_ok hp
        obtain ⟨b, hb, hp⟩ := except_bind_eq_ok hp
        obtain ⟨c, hc, hp⟩ := except_bind_eq_ok hp
        obtain ⟨ha₁, rfl⟩ := unescape_ok ha
        obtain ⟨hb₁, rfl⟩ := unescape_ok hb
        obtain ⟨-, rfl⟩ := unescape_ok hc
        cases hp
        have hx := cutLast_some hl
        rw [cutPercent25_some hz, List.append_assoc] at hx
        have := unescapeBytes_escape .host H []
        rw [List.append_nil, hx, unescapeBytes_append .host ha₁, unescapeBytes_append .host hb₁,
          @unescapeBytes_eq_of_ne .host .zone (by decide) (by decide) zone] at this
        simpa [unescapeBytes] using this
      · exact unescape_escape_ok hp
  · split at hp
    · split_ifs at hp
      exact unescape_escape_ok hp
    · exact unescape_escape_ok hp

end Parse

end AtlasOperator.Proofs
