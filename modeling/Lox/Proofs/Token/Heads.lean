import Mathlib
import Lox.Proofs.Token.HeadPieces

/-!
# A head is always safe

Calls of a head yield the items of its source, one after the other, and none afterwards. Each of them comes to its
end without a fault, so no byte is looked for where there is none, and every slice has its ends in order, in range and
between characters. A call that yields anything but the end of the input moves the head on, inside of the source.
-/

set_option autoImplicit false

namespace Lox

/-- Whether the item is the token that ends the input. -/
def Item.isEof : Item → Bool
  | .token t => t.isEof
  | .error _ => false

namespace Head

open Scanning Scan

/-- The head that goes on behind a piece. -/
def behind (h : Head) (p : Piece) : Head :=
  ⟨h.source, h.curr, h.curr + (octets p.text).length, endLine h.line p, none⟩

/-- A head of this source still has these items to yield. -/
inductive Ahead (source : String) : Head → List Item → Prop where
  | within {h : Head} {before after : List Char} (hsource : h.source = source) (hat : h.At before after) :
      Ahead source h (itemsFrom h.line (pieces after))
  | done {h : Head} (hsource : h.source = source) (hcurr : h.curr = source.toUTF8.size + 1) : Ahead source h []

section Rounds

variable {h : Head} {before : List Char} {c : Char} {rest : List Char}

/-- At the end of the source, the end of the input is yielded, and the head moves behind it. -/
theorem nextWith_end (hat : h.At before []) (fuel : ℕ) :
    nextWith (fuel + 1) h = .ok (some (.token (.eofAt h.line))) { h with curr := h.curr + 1 } := by
  have hsize : h.bytes.size = h.curr := hat.between.size
  rw [nextWith, get_bind, if_pos hsize.ge, if_pos hsize.symm]
  rfl

/-- Behind a piece, a head stands between what has been read and the rest. -/
theorem at_behind (hat : h.At before (c :: rest)) :
    (h.behind (firstPiece c rest).1).At (before ++ (firstPiece c rest).1.text) (firstPiece c rest).2 :=
  hat.move (firstPiece_append_rest c rest) rfl rfl

/-- A text that is not empty has at least one byte. -/
theorem length_octets_pos {text : List Char} (h : text ≠ []) : 0 < (octets text).length := by
  rw [← size_utf8Encode]
  exact size_utf8Encode_pos h

/-- In front of a piece, its item is yielded, or else the next one. -/
theorem nextWith_piece (hat : h.At before (c :: rest)) (fuel : ℕ) :
    nextWith (fuel + 1) h =
      match item? (endLine h.line (firstPiece c rest).1) (firstPiece c rest).1 with
      | some item => .ok (some item) (h.behind (firstPiece c rest).1)
      | none => nextWith fuel (h.behind (firstPiece c rest).1) := by
  have hsize : h.bytes.size = h.curr + (octets (c :: rest)).length := hat.between.size
  have hpos := length_octets_pos (List.cons_ne_nil c rest)
  have hbegun : At { h with start := h.curr, pending := none } before (c :: rest) := ⟨hat.text, hat.curr⟩
  have hscan := hbegun.scanToken_eq rfl rfl
  have hslice : slice h.curr (h.behind (firstPiece c rest).1).curr (h.behind (firstPiece c rest).1) =
      .ok (String.ofList (firstPiece c rest).1.text) (h.behind (firstPiece c rest).1) :=
    hat.slice_eq (firstPiece_append_rest c rest) (by rfl) rfl rfl
  rw [nextWith, get_bind, if_pos (by omega), if_neg (by omega)]
  refine (bind_ok (show begin h = .ok () { h with start := h.curr, pending := none } from rfl)).trans
    ((bind_ok hscan).trans ?_)
  generalize firstPiece c rest = cut at hslice ⊢
  obtain ⟨⟨shape, text⟩, after⟩ := cut
  cases shape with
  | blank => rfl
  | comment => rfl
  | unexpected => rfl
  | unterminated => rfl
  | token kind => exact bind_ok hslice

end Rounds

/-- What a call from one head to another does if it yields an item, with others to come. -/
structure Step (h : Head) (h' : Head) (others : List Item) : Prop where
  ahead : Ahead h.source h' others
  moves : h.curr < h'.curr
  inside : others ≠ [] → h'.curr ≤ h.bytes.size

/-- Within a source, a call yields the first item to come. It skips blanks and comments, each of which moves the
head. -/
theorem nextWith_eq (text : List Char) {h : Head} {before : List Char} {fuel : ℕ} (hat : h.At before text)
    (hfuel : (octets text).length < fuel) : ∃ item h' others, nextWith fuel h = .ok (some item) h' ∧
      itemsFrom h.line (pieces text) = item :: others ∧ Step h h' others := by
  induction text using pieces.induct generalizing h before fuel with
  | case1 =>
    obtain ⟨fuel, rfl⟩ := Nat.exists_eq_add_of_le' (Nat.zero_lt_of_lt hfuel)
    have hsize : h.bytes.size = h.curr := hat.between.size
    rw [nextWith_end hat, pieces]
    exact ⟨_, _, [], rfl, rfl, .done rfl (congrArg (· + 1) hsize.symm), Nat.lt_succ_self _,
      fun hne => absurd rfl hne⟩
  | case2 c rest ih =>
    obtain ⟨fuel, rfl⟩ := Nat.exists_eq_add_of_le' (Nat.zero_lt_of_lt hfuel)
    have hbehind := at_behind hat
    have hlength : (octets (c :: rest)).length =
        (octets (firstPiece c rest).1.text).length + (octets (firstPiece c rest).2).length := by
      rw [← List.length_append, ← octets_append, firstPiece_append_rest]
    have hpos := length_octets_pos (firstPiece_text_ne_nil c rest)
    have hmoves : h.curr < (h.behind (firstPiece c rest).1).curr := Nat.lt_add_of_pos_right hpos
    rw [nextWith_piece hat, pieces, itemsFrom]
    cases hitem : item? (endLine h.line (firstPiece c rest).1) (firstPiece c rest).1 with
    | some item =>
      have hsize : h.bytes.size = (h.behind (firstPiece c rest).1).curr + (octets (firstPiece c rest).2).length :=
        hbehind.between.size
      exact ⟨item, _, _, rfl, rfl, .within rfl hbehind, hmoves, fun _ => by omega⟩
    | none =>
      have hrest : (octets (firstPiece c rest).2).length < fuel := by omega
      obtain ⟨item, h', others, hnext, hitems, hstep⟩ := ih hbehind hrest
      exact ⟨item, h', others, hnext, hitems, hstep.ahead, hmoves.trans hstep.moves, hstep.inside⟩

/-- A call yields the first item to come and leaves the others. Where there is none, it leaves the head. -/
theorem next_eq {source : String} {h : Head} {its : List Item} (hahead : Ahead source h its) :
    ∃ h', next h = .ok its.head? h' ∧ Ahead source h' its.tail ∧ (its = [] → h' = h) ∧
      (its ≠ [] → h.curr < h'.curr) ∧ (its.tail ≠ [] → h'.curr ≤ source.toUTF8.size) := by
  cases hahead with
  | within hsource hat =>
    obtain ⟨item, h', others, hnext, hitems, hstep⟩ := nextWith_eq _ hat hat.length_behind
    subst hsource
    rw [hitems]
    exact ⟨h', hnext, hstep.ahead, nofun, fun _ => hstep.moves, hstep.inside⟩
  | done hsource hcurr =>
    have hdone : ¬h.curr ≤ h.bytes.size := by
      rw [hcurr, Head.bytes, hsource]
      omega
    refine ⟨h, ?_, .done hsource hcurr, fun _ => rfl, fun hne => absurd rfl hne, fun hne => absurd rfl hne⟩
    show nextWith (h.bytes.size + 1) h = _
    rw [nextWith, get_bind, if_neg hdone]
    rfl

/-- After a number of calls, as many items have been yielded. -/
theorem ahead_after (source : String) (n : ℕ) : Ahead source (Head.after source n) ((items source).drop n) := by
  induction n with
  | zero => exact @Ahead.within source (.front source) [] source.toList rfl ⟨rfl, rfl⟩
  | succ n ih =>
    obtain ⟨h', hnext, hahead, -⟩ := next_eq ih
    have hafter : Head.after source (n + 1) = h' := by rw [Head.after, hnext]
    rw [hafter, ← List.tail_drop]
    exact hahead

end Head

/-- The items of a source end with the end of the input, and none of those before it does. -/
theorem Scan.items_end (source : String) : ∃ before line, items source = before ++ [.token (.eofAt line)] ∧
    ∀ item ∈ before, item.isEof = false := by
  refine ⟨itemsBefore 1 (pieces source.toList), (pieces source.toList).foldl endLine 1, itemsFrom_eq .., ?_⟩
  intro item hitem
  cases item with
  | token t => exact isEof_of_mem_tokensBefore (List.mem_filterMap.mpr ⟨.token t, hitem, rfl⟩)
  | error e => rfl

/-- A head is safe on every source, for any number of calls: no call ends with a fault. First the calls yield the items
of the source that are not the end of the input, and each of these calls moves the head on inside of the source. Then
one call yields the end of the input. All later calls yield nothing and leave the head where it is. -/
theorem scanning_is_safe (source : String) :
    ∃ before line, Scan.items source = before ++ [.token (.eofAt line)] ∧ (∀ item ∈ before, item.isEof = false) ∧
      ∀ n,
        (∀ item, before[n]? = some item →
          Scanning.next (Head.after source n) = .ok (some item) (Head.after source (n + 1)) ∧
            (Head.after source n).curr < (Head.after source (n + 1)).curr ∧
            (Head.after source (n + 1)).curr ≤ source.toUTF8.size) ∧
        (n = before.length → Scanning.next (Head.after source n) =
          .ok (some (.token (.eofAt line))) (Head.after source (n + 1))) ∧
        (before.length < n → Scanning.next (Head.after source n) = .ok none (Head.after source n)) := by
  obtain ⟨before, line, hitems, hbefore⟩ := Scan.items_end source
  refine ⟨before, line, hitems, hbefore, fun n => ?_⟩
  obtain ⟨h', hnext, -, hstay, hmoves, hinside⟩ := Head.next_eq (Head.ahead_after source n)
  have hafter : Head.after source (n + 1) = h' := by rw [Head.after, hnext]
  have hlength : (Scan.items source).length = before.length + 1 := by
    rw [hitems, List.length_append, List.length_singleton]
  rw [hafter]
  rw [List.head?_drop] at hnext
  refine ⟨fun item hitem => ?_, fun hn => ?_, fun hn => ?_⟩
  · have hn : n < before.length := (List.getElem?_eq_some_iff.mp hitem).1
    have htail : ((Scan.items source).drop n).tail ≠ [] := by
      rw [List.tail_drop, ne_eq, List.drop_eq_nil_iff]
      omega
    rw [hitems, List.getElem?_append_left hn, hitem] at hnext
    exact ⟨hnext, hmoves (mt (congrArg List.tail) htail), hinside htail⟩
  · rwa [hitems, hn, List.getElem?_concat_length, ← hn] at hnext
  · have hnil : (Scan.items source).drop n = [] := List.drop_eq_nil_of_le (by omega)
    rwa [List.getElem?_eq_none (by omega), hstay hnil] at hnext

end Lox
