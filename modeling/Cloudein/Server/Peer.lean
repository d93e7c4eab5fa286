import Mathlib.Data.List.Basic

/-!
# The address of the peer

Every `Proceed` cuts the address of the client out of the URI of the peer, with a lambda that searches the first and
the last colon and does not ask whether there is one.  Positions are of type `size_t`; the search answers `npos`, the
largest value of the type, when it finds nothing, and `substr` throws when the start lies beyond the string.
-/

namespace Cloudein.Server

abbrev SizeT := BitVec 64

def npos : SizeT := -1

private theorem toNat_npos : npos.toNat = 18446744073709551615 := by decide

private theorem toNat_one : (1 : SizeT).toNat = 1 := rfl

def findFirstOf (s : List Char) (c : Char) : SizeT :=
  if c ∈ s then .ofNat 64 (s.idxOf c) else npos

def findLastOf (s : List Char) (c : Char) : SizeT :=
  if c ∈ s then .ofNat 64 (s.length - 1 - s.reverse.idxOf c) else npos

/-- `substr(pos, n)`, `none` for `std::out_of_range`. -/
def substr (s : List Char) (pos n : SizeT) : Option (List Char) :=
  if s.length < pos.toNat then none else some ((s.drop pos.toNat).take n.toNat)

/-- The lambda `ip` of `Proceed`. -/
def ip (uri : List Char) : Option (List Char) :=
  let firstIdx := findFirstOf uri ':'
  let secondIdx := findLastOf uri ':'
  substr uri (firstIdx + 1) (secondIdx - firstIdx - 1)

/-- The start lies within the string: `npos + 1` is zero, and a colon that was found has a character after it or is
the last one. -/
theorem findFirstOf_add_one_le (s : List Char) (c : Char) : (findFirstOf s c + 1).toNat ≤ s.length := by
  unfold findFirstOf
  split
  · rename_i hc
    have hlt : s.idxOf c < s.length := List.idxOf_lt_length_of_mem hc
    have hmod : (BitVec.ofNat 64 (s.idxOf c) + 1).toNat ≤ s.idxOf c + 1 := by
      rw [BitVec.toNat_add, BitVec.toNat_ofNat, toNat_one]
      omega
    omega
  · have hzero : (npos + 1).toNat = 0 := by decide
    omega

/-- The lambda never throws. -/
theorem ip_isSome (uri : List Char) : ∃ host, ip uri = some host := by
  have hstart := findFirstOf_add_one_le uri ':'
  unfold ip substr
  exact ⟨_, if_neg (by omega)⟩

/-- A `std::string`: its size is below `npos`. -/
structure StdString where
  chars : List Char
  size_lt : chars.length < npos.toNat

private theorem findFirstOf_append {s t : List Char} {c : Char} (hs : c ∉ s) :
    findFirstOf (s ++ c :: t) c = .ofNat 64 s.length := by
  unfold findFirstOf
  rw [if_pos (by simp), List.idxOf_append_of_notMem hs, List.idxOf_cons_self, Nat.add_zero]

private theorem findLastOf_append {s t : List Char} {c : Char} (ht : c ∉ t) :
    findLastOf (s ++ c :: t) c = .ofNat 64 s.length := by
  have hreverse : (s ++ c :: t).reverse.idxOf c = t.length := by
    have ht' : c ∉ t.reverse := fun hc => ht (List.mem_reverse.1 hc)
    rw [List.reverse_append, List.reverse_cons, List.append_assoc, List.idxOf_append_of_notMem ht']
    simp
  unfold findLastOf
  rw [if_pos (by simp), hreverse, List.length_append, List.length_cons]
  congr 1
  omega

/-- Without a colon the start wraps to zero and the count to the largest, so all of the string is taken. -/
theorem ip_noColon (uri : StdString) (h : ':' ∉ uri.chars) : ip uri.chars = some uri.chars := by
  have hstart : (npos + 1).toNat = 0 := by decide
  have hcount : npos - npos - 1 = npos := by decide
  unfold ip findFirstOf findLastOf substr
  simp only [if_neg h]
  rw [hstart, hcount, if_neg (Nat.not_lt_zero _), List.drop_zero, List.take_of_length_le (Nat.le_of_lt uri.size_lt)]

/-- With a colon the start is behind the first one. -/
theorem ip_colon (uri : StdString) {scheme rest : List Char} (huri : uri.chars = scheme ++ ':' :: rest)
    (hscheme : ':' ∉ scheme) :
    ip uri.chars = some (rest.take (findLastOf uri.chars ':' - .ofNat 64 scheme.length - 1).toNat) := by
  have hsize := uri.size_lt
  have hlength : uri.chars.length = scheme.length + 1 + rest.length := by
    rw [huri]
    simp
    omega
  have hstart : (BitVec.ofNat 64 scheme.length + 1 : SizeT).toNat = scheme.length + 1 := by
    rw [toNat_npos] at hsize
    rw [BitVec.toNat_add, BitVec.toNat_ofNat, toNat_one]
    omega
  have hfirst : findFirstOf uri.chars ':' = .ofNat 64 scheme.length := by
    rw [huri, findFirstOf_append hscheme]
  have hdrop : uri.chars.drop (scheme.length + 1) = rest := by
    rw [huri, ← List.drop_drop]
    simp
  unfold ip substr
  simp only [hfirst]
  rw [hstart, if_neg (by omega), hdrop]

/-- With one colon the count wraps to the largest, so all that stands behind the colon is taken. -/
theorem ip_oneColon (uri : StdString) {scheme rest : List Char} (huri : uri.chars = scheme ++ ':' :: rest)
    (hscheme : ':' ∉ scheme) (hrest : ':' ∉ rest) : ip uri.chars = some rest := by
  have hlast : findLastOf uri.chars ':' = .ofNat 64 scheme.length := by
    rw [huri, findLastOf_append hrest]
  have hcount : (BitVec.ofNat 64 scheme.length - BitVec.ofNat 64 scheme.length - 1 : SizeT) = npos := by
    rw [BitVec.sub_self]
    rfl
  have hsize := uri.size_lt
  rw [huri, List.length_append, List.length_cons] at hsize
  rw [ip_colon uri huri hscheme, hlast, hcount, List.take_of_length_le (by omega)]

/-- The text between the first colon and the last, with the colons that stand in it. -/
theorem ip_host (uri : StdString) {scheme host port : List Char}
    (huri : uri.chars = scheme ++ ':' :: (host ++ ':' :: port)) (hscheme : ':' ∉ scheme) (hport : ':' ∉ port) :
    ip uri.chars = some host := by
  have hlast : findLastOf uri.chars ':' = .ofNat 64 (scheme.length + 1 + host.length) := by
    have hsplit : uri.chars = (scheme ++ ':' :: host) ++ ':' :: port := by simp [huri]
    rw [hsplit, findLastOf_append hport, List.length_append, List.length_cons]
    congr 1
    omega
  -- The positions differ by the host and one colon, and neither subtraction wraps.
  have hcount : (BitVec.ofNat 64 (scheme.length + 1 + host.length) - BitVec.ofNat 64 scheme.length - 1 :
      SizeT).toNat =
      host.length := by
    have hsize := uri.size_lt
    rw [huri, List.length_append, List.length_cons, List.length_append, List.length_cons, toNat_npos] at hsize
    rw [BitVec.toNat_sub, BitVec.toNat_sub, BitVec.toNat_ofNat, BitVec.toNat_ofNat, toNat_one]
    omega
  rw [ip_colon uri huri hscheme, hlast, hcount]
  simp

example : ip "ipv4:10.0.0.7:50051".toList = some "10.0.0.7".toList := by decide

end Cloudein.Server
