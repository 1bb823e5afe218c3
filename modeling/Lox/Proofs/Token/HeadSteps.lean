import Mathlib
import Lox.Proofs.Token.Octets

/-!
# Steps of the head

A head stands between the bytes that it has gone over and those behind them. Each step is described by the bytes
behind the head: what it looks at there, and how many of them it goes over. A byte is read only where there is one,
and a loop over bytes comes to its end within a bound that exceeds the number of bytes left.
-/

set_option autoImplicit false

namespace Lox

/-- A step that goes on is followed by the next one. -/
theorem Scanning.bind_ok {α β : Type} {p : Scanning α} {f : α → Scanning β} {a : α} {h h' : Head}
    (hp : p h = .ok a h') : (p >>= f) h = f a h' := by
  show EStateM.bind p f h = _
  rw [EStateM.bind, hp]

/-- The head is looked at. -/
theorem Scanning.get_bind {α : Type} (f : Head → Scanning α) (h : Head) : (get >>= f) h = f h h := rfl

namespace Head

/-- A head stands between these bytes. -/
structure Between (h : Head) (before behind : List UInt8) : Prop where
  bytes : h.bytes.data.toList = before ++ behind
  curr : h.curr = before.length

namespace Between

open Scanning

variable {h : Head} {before behind : List UInt8} {b : UInt8}

/-- A head stands as many bytes before the end as are behind it. -/
theorem size (hb : h.Between before behind) : h.bytes.size = h.curr + behind.length := by
  rw [hb.curr, ← List.length_append, ← hb.bytes]
  rfl

/-- The head that has gone over some of the bytes. -/
theorem move (text : List UInt8) (hb : h.Between before (text ++ behind)) {h' : Head}
    (hsource : h'.source = h.source) (hcurr : h'.curr = h.curr + text.length) :
    h'.Between (before ++ text) behind where
  bytes := by rw [List.append_assoc, ← hb.bytes, Head.bytes, hsource, Head.bytes]
  curr := by rw [hcurr, hb.curr, List.length_append]

/-- A head is at the end if no bytes are behind it. -/
theorem atEnd_eq (hb : h.Between before behind) : atEnd h = .ok behind.isEmpty h := by
  have hsize := hb.size
  cases behind with
  | nil => simp [atEnd, hsize]
  | cons b rest => simp [atEnd, hsize]

/-- The bytes behind a head are those of the source from its position on. -/
theorem byteAt_eq (hb : h.Between before behind) {i : ℕ} (hi : behind[i]? = some b) :
    byteAt (h.curr + i) h = .ok b h := by
  have hbyte : h.bytes.data[h.curr + i]? = some b := by
    rw [← Array.getElem?_toList, hb.bytes, hb.curr, List.getElem?_append_right (Nat.le_add_right ..),
      Nat.add_sub_cancel_left, hi]
  rw [byteAt, hbyte]

/-- A head that goes on reads the next byte. -/
theorem advance_eq (hb : h.Between before (b :: behind)) : advance h = .ok b { h with curr := h.curr + 1 } := by
  have hbyte : byteAt h.curr h = .ok b h := hb.byteAt_eq (i := 0) rfl
  exact bind_ok hbyte

/-- A head sees the next byte, or zero at the end. -/
theorem peek_eq (hb : h.Between before behind) : peek h = .ok (behind.headD 0) h := by
  refine (bind_ok hb.atEnd_eq).trans ?_
  cases behind with
  | nil => rfl
  | cons b rest => exact hb.byteAt_eq (i := 0) rfl

/-- A head sees the byte behind the next one, or zero if there is none. -/
theorem peekNext_eq (hb : h.Between before behind) : peekNext h = .ok (behind.tail.headD 0) h := by
  have hsize := hb.size
  show (if h.bytes.size ≤ h.curr + 1 then pure 0 else byteAt (h.curr + 1)) h = _
  match behind, hb with
  | [], _ => rw [if_pos (by simp [hsize])]; rfl
  | [_], _ => rw [if_pos (by simp [hsize])]; rfl
  | _ :: c :: rest, hb =>
    rw [if_neg (by simp [hsize])]
    exact hb.byteAt_eq (i := 1) rfl

/-- The next byte is read if it is the character that is looked for. -/
theorem matchByte_eq (hb : h.Between before behind) (c : Char) :
    matchByte c h =
      if behind.head?.any (byteIs (· == c)) then .ok true { h with curr := h.curr + 1 } else .ok false h := by
  refine (bind_ok hb.atEnd_eq).trans ((bind_ok hb.peek_eq).trans ?_)
  cases behind with
  | nil => rfl
  | cons b rest =>
    show (if byteIs (· == c) b then _ else _ : Scanning Bool) h = if byteIs (· == c) b then _ else _
    cases byteIs (· == c) b with
    | true => exact bind_ok hb.advance_eq
    | false => rfl

/-- A loop reads the bytes that have a property, if zero does not have it. -/
theorem advanceWhile_eq {p : UInt8 → Bool} (hzero : p 0 = false) {fuel : ℕ} (hb : h.Between before behind)
    (hfuel : behind.length < fuel) :
    advanceWhile p fuel h = .ok () { h with curr := h.curr + (behind.takeWhile p).length } := by
  induction fuel generalizing h before behind with
  | zero => cases hfuel
  | succ fuel ih =>
    refine (bind_ok hb.peek_eq).trans ?_
    cases behind with
    | nil =>
      rw [List.headD_nil, hzero]
      rfl
    | cons b rest =>
      rw [List.headD_cons]
      cases hp : p b with
      | false =>
        rw [List.takeWhile_cons_of_neg (by simp [hp])]
        rfl
      | true =>
        have hmoved : Head.Between { h with curr := h.curr + 1 } (before ++ [b]) rest := hb.move [b] rfl rfl
        refine (bind_ok hb.advance_eq).trans ?_
        rw [ih hmoved (Nat.lt_of_succ_lt_succ hfuel), List.takeWhile_cons_of_pos hp, List.length_cons]
        simp only [Nat.add_assoc, Nat.add_comm 1]

/-- A loop reads the bytes in front of a quote, or all, and counts their new lines. -/
theorem toQuote_eq {fuel : ℕ} (hb : h.Between before behind) (hfuel : behind.length < fuel) :
    toQuote fuel h = .ok () { h with
      curr := h.curr + (behind.takeWhile (byteIs (· != '"'))).length
      line := h.line + (behind.takeWhile (byteIs (· != '"'))).countP (byteIs (· == '\n')) } := by
  induction fuel generalizing h before behind with
  | zero => cases hfuel
  | succ fuel ih =>
    refine (bind_ok hb.atEnd_eq).trans ((bind_ok hb.peek_eq).trans ?_)
    cases behind with
    | nil => rfl
    | cons b rest =>
      rw [List.headD_cons]
      cases hp : byteIs (· != '"') b with
      | false =>
        rw [List.takeWhile_cons_of_neg (by simp [hp])]
        rfl
      | true =>
        refine (bind_ok hb.advance_eq).trans ?_
        rw [List.takeWhile_cons_of_pos hp, List.length_cons, List.countP_cons]
        have hrest (line : ℕ) : toQuote fuel { h with curr := h.curr + 1, line } = _ :=
          ih (hb.move [b] rfl rfl) (Nat.lt_of_succ_lt_succ hfuel)
        have hcurr (n : ℕ) : h.curr + 1 + n = h.curr + (n + 1) := by omega
        cases hnewline : byteIs (· == '\n') b with
        | false =>
          refine (hrest h.line).trans ?_
          simp only [hcurr, Bool.false_eq_true, if_false, Nat.add_zero]
        | true =>
          refine (hrest (h.line + 1)).trans ?_
          simp only [hcurr, if_true, Nat.add_assoc, Nat.add_comm 1]

end Between

end Head

end Lox
