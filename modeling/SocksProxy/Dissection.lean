import SocksProxy.EarlyLimit
import SocksProxy.Accounts

/-!
# The dissector finds the logins of the stream

Whatever the chunks, the handlers are the early machine: its fields are the fronts
of two blocks that grow by five bytes at a time, and no byte makes a handler fail.
What they print are the strings of those blocks, which end at a zero byte.
-/

namespace SocksProxy

open Lib Scanner

/-- The bytes at the front of a block with the room that `checkSize` gave it. -/
def Growing (heap : Heap) (ptr : Ptr) (bytes : List UInt8) : Prop :=
  bytes ≠ [] → ∃ a block, ptr = some a ∧ a < heap.next ∧ heap.block a = some block ∧
    bytes <+: block ∧ block.length = bufferSize * ((bytes.length + 4) / bufferSize)

/-- A block with the bytes and a NUL at its front. -/
def Ended (heap : Heap) (ptr : Ptr) (bytes : List UInt8) : Prop :=
  ∃ a block, ptr = some a ∧ a < heap.next ∧ heap.block a = some block ∧ bytes ++ [0] <+: block

/-- Block `a` has the bytes at its front, and the blocks but the one of the field stayed. -/
structure Placed (heap : Heap) (ptr : Ptr) (old bytes : List UInt8) (heap' : Heap) (a : Nat)
    (block : List UInt8) : Prop where
  here : heap'.block a = some block
  front : bytes <+: block
  size : block.length = bufferSize * (old.length / bufferSize + 1)
  low : a < heap'.next
  next : heap.next ≤ heap'.next
  frame : ∀ c < heap.next, old = [] ∨ ptr ≠ some c → a ≠ c ∧ heap'.block c = heap.block c

/-- The record and its blocks are a state of the machine. -/
def Dissects (heap : Heap) (p : DissecParser) : Scanner → Prop
  | .userWord k =>
    p.current = .userWordSearch ∧ p.currentIndex = k ∧ p.last = false ∧ k < userL
  | .username bytes last =>
    p.current = .userRead ∧ p.currentIndex = bytes.length ∧ p.last = last ∧
      Growing heap p.username bytes
  | .passWord name k =>
    p.current = .passWordSearch ∧ p.currentIndex = k ∧ p.last = false ∧ k < passL ∧
      Ended heap p.username name
  | .password name bytes last =>
    p.current = .passRead ∧ p.currentIndex = bytes.length ∧ p.last = last ∧
      Ended heap p.username name ∧ Growing heap p.password bytes ∧
      (bytes ≠ [] → p.username ≠ p.password)

/-- What is printed of a login. -/
def shown (user : Ptr) (pair : List UInt8 × List UInt8) : PopLogin :=
  ⟨user, chars pair.1, chars pair.2⟩

section
variable {user : Ptr} {heap heap' : Heap} {ptr : Ptr} {p : DissecParser} {bytes name : List UInt8}
  {b : UInt8} {a k : Nat} {block : List UInt8} {last : Bool}

/-! ## Blocks -/

theorem set_front (front : bytes <+: block) (room : bytes.length < block.length) (b : UInt8) :
    bytes ++ [b] <+: block.set bytes.length b := by
  obtain ⟨rest, rfl⟩ := front
  cases rest with
  | nil => simp at room
  | cons x rest =>
    refine ⟨rest, ?_⟩
    simp

theorem checkSize_spec (h : Growing heap ptr bytes) : ∃ a block heap',
    checkSize heap ptr bytes.length = .ok (some a, heap') ∧
      Placed heap ptr bytes bytes heap' a block := by
  by_cases empty : bytes = []
  · subst empty
    refine ⟨heap.next, List.replicate 5 0, (heap.malloc 5).2, rfl, ?_⟩
    constructor
    · exact Function.update_self ..
    · exact List.nil_prefix
    · rfl
    · exact Nat.lt_succ_self _
    · exact Nat.le_succ _
    · intro c low _
      exact ⟨by omega, Function.update_of_ne (by omega) _ _⟩
  obtain ⟨a, block, rfl, low, here, front, size⟩ := h empty
  have some' : 0 < bytes.length := List.length_pos_of_ne_nil empty
  by_cases whole : bytes.length % bufferSize = 0
  · -- the block is full: `realloc` moves it to a new one with five bytes more
    have size' : block.length = bytes.length := by
      simp only [bufferSize] at size whole
      omega
    have nonzero : bytes.length ≠ 0 := by omega
    have loaded : heap.load (some a) = .ok (a, block) := by rw [Heap.load, here]
    let grown := block.take (bytes.length + bufferSize) ++
      List.replicate (bytes.length + bufferSize - block.length) 0
    have ran : checkSize heap (some a) bytes.length = .ok (some heap.next,
        ⟨Function.update (Function.update heap.block a none) heap.next (some grown),
          heap.next + 1⟩) := by
      simp only [checkSize, if_pos whole, if_neg nonzero, Heap.realloc, loaded, ok_bind, grown]
    have kept : grown = block ++ List.replicate bufferSize 0 := by
      simp only [grown, size', Nat.add_sub_cancel_left]
      rw [List.take_of_length_le (by omega)]
    refine ⟨heap.next, grown, _, ran, ?_⟩
    constructor
    · exact Function.update_self ..
    · rw [kept]
      exact front.trans (List.prefix_append _ _)
    · rw [kept, List.length_append, List.length_replicate, size']
      simp only [bufferSize] at whole ⊢
      omega
    · exact Nat.lt_succ_self _
    · exact Nat.le_succ _
    · rintro c old (nothing | other)
      · exact absurd nothing empty
      · have apart : c ≠ a := fun same => other (congrArg some same.symm)
        refine ⟨by omega, ?_⟩
        simp only [Function.update_of_ne (Nat.ne_of_lt old), Function.update_of_ne apart]
  · refine ⟨a, block, heap, by rw [checkSize, if_neg whole], ?_⟩
    constructor
    · exact here
    · exact front
    · rw [size]
      simp only [bufferSize] at whole ⊢
      omega
    · exact low
    · exact Nat.le_refl _
    · rintro c - (nothing | other)
      · exact absurd nothing empty
      · exact ⟨fun same => other (congrArg some same), rfl⟩

/-- A byte at the end of a field goes in behind it, with room made for it. -/
theorem checkSize_store (h : Growing heap ptr bytes) (b : UInt8) : ∃ a block heap₁ heap₂,
    checkSize heap ptr bytes.length = .ok (some a, heap₁) ∧
      heap₁.store (some a) bytes.length b = .ok heap₂ ∧
      Placed heap ptr bytes (bytes ++ [b]) heap₂ a block := by
  obtain ⟨a, block, heap₁, sized, grown⟩ := checkSize_spec h
  have room : bytes.length < block.length := by
    rw [grown.size]
    simp only [bufferSize]
    omega
  have loaded : heap₁.load (some a) = .ok (a, block) := by rw [Heap.load, grown.here]
  refine ⟨a, block.set bytes.length b, heap₁,
    ⟨Function.update heap₁.block a (some (block.set bytes.length b)), heap₁.next⟩, sized, ?_, ?_⟩
  · simp only [Heap.store, loaded, ok_bind, if_pos room]
  constructor
  · exact Function.update_self ..
  · exact set_front grown.front room b
  · rw [List.length_set]
    exact grown.size
  · exact grown.low
  · exact grown.next
  · intro c old other
    obtain ⟨apart, same⟩ := grown.frame c old other
    exact ⟨apart, (Function.update_of_ne (Ne.symm apart) _ _).trans same⟩

theorem Placed.growing (h : Placed heap ptr bytes (bytes ++ [b]) heap' a block) :
    Growing heap' (some a) (bytes ++ [b]) := by
  intro _
  refine ⟨a, block, rfl, h.low, h.here, h.front, ?_⟩
  rw [h.size, List.length_append, List.length_singleton]
  simp only [bufferSize]
  omega

theorem Placed.ended (h : Placed heap ptr bytes (bytes ++ [0]) heap' a block) :
    Ended heap' (some a) bytes := ⟨a, block, rfl, h.low, h.here, h.front⟩

theorem Ended.kept {q : Ptr} {bytes' : List UInt8} (h : Ended heap q name)
    (grown : Placed heap ptr bytes bytes' heap' a block) (other : bytes = [] ∨ ptr ≠ q) :
    Ended heap' q name ∧ q ≠ some a := by
  obtain ⟨c, text, rfl, low, here, front⟩ := h
  obtain ⟨apart, same⟩ := grown.frame c low other
  exact ⟨⟨c, text, rfl, Nat.lt_of_lt_of_le low grown.next, same.trans here, front⟩,
    fun h => apart (Option.some.inj h).symm⟩

/-- `printf` stops at the first zero byte. -/
theorem Ended.printed (h : Ended heap ptr name) :
    ∃ a block, heap.load ptr = .ok (a, block) ∧ cString block = .ok (chars name) := by
  obtain ⟨a, block, rfl, -, here, rest, rfl⟩ := h
  exact ⟨a, _, by rw [Heap.load, here], cString_front name rest⟩

theorem Ended.freed (h : Ended heap ptr name) : ∃ heap', heap.free ptr = .ok heap' := by
  obtain ⟨a, block, rfl, -, here, -⟩ := h
  exact ⟨_, by rw [Heap.free, here]⟩

/-! ## The handlers -/

theorem restart_holds (current : p.current = .userWordSearch)
    (index : p.currentIndex = if (0x75 : UInt8) = b then 1 else 0) (last : p.last = false) :
    Dissects heap p (restart b) := by
  rw [restart]
  split
  · rename_i first
    rw [if_pos first.symm] at index
    exact ⟨current, index, last, by decide⟩
  · rename_i other
    rw [if_neg (Ne.symm other)] at index
    exact ⟨current, index, last, by decide⟩

theorem wordAt_get {word : List UInt8} {i : Nat} (bound : i < word.length) :
    wordAt word i = .ok word[i] := by
  rw [wordAt, List.getElem?_eq_getElem bound]

theorem userWord_refines (b : UInt8) (h : Dissects heap p (.userWord k)) :
    ∃ p', userWordSearchHandler p b = .ok p' ∧
      Dissects heap p' ((Scanner.userWord k).feed true b).1 ∧ p'.printed = p.printed := by
  obtain ⟨current, rfl, last, bound⟩ := h
  have bound : p.currentIndex < userReservedPop3Word.length := bound
  have symbol := wordAt_get bound
  rw [feed, List.getElem?_eq_getElem bound]
  by_cases same : userReservedPop3Word[p.currentIndex] = b
  · rw [if_pos (congrArg some same)]
    by_cases whole : p.currentIndex + 1 = userL
    · refine ⟨{ p with currentIndex := 0, current := .userRead }, ?_, ?_, rfl⟩
      · simp only [userWordSearchHandler, symbol, ok_bind, if_pos same, if_pos whole]
      · rw [if_pos whole]
        exact ⟨rfl, rfl, last, fun some' => absurd rfl some'⟩
    · refine ⟨{ p with currentIndex := p.currentIndex + 1, current := .userWordSearch }, ?_, ?_,
        rfl⟩
      · simp only [userWordSearchHandler, symbol, ok_bind, if_pos same, if_neg whole]
      · rw [if_neg whole]
        exact ⟨rfl, rfl, last, by omega⟩
  · rw [if_neg fun h => same (Option.some.inj h)]
    refine ⟨{ p with
      currentIndex := if (0x75 : UInt8) = b then 1 else 0, current := .userWordSearch }, ?_, ?_,
        rfl⟩
    · simp only [userWordSearchHandler, symbol, ok_bind, if_neg same]
      rfl
    · exact restart_holds rfl rfl last

theorem passWord_refines (b : UInt8) (h : Dissects heap p (.passWord name k)) :
    ∃ heap' p', passWordSearchHandler heap p b = .ok (heap', p') ∧
      Dissects heap' p' ((Scanner.passWord name k).feed true b).1 ∧ p'.printed = p.printed := by
  obtain ⟨current, rfl, last, bound, text⟩ := h
  have bound : p.currentIndex < passReservedPop3Word.length := bound
  have symbol := wordAt_get bound
  rw [feed, List.getElem?_eq_getElem bound]
  by_cases same : passReservedPop3Word[p.currentIndex] = b
  · rw [if_pos (congrArg some same)]
    by_cases whole : p.currentIndex + 1 = passL
    · refine ⟨heap, { p with currentIndex := 0, current := .passRead }, ?_, ?_, rfl⟩
      · simp only [passWordSearchHandler, symbol, ok_bind, if_pos same, if_pos whole]
      · rw [if_pos whole]
        exact ⟨rfl, rfl, last, text, fun some' => absurd rfl some', fun some' => absurd rfl some'⟩
    · refine ⟨heap, { p with currentIndex := p.currentIndex + 1, current := .passWordSearch }, ?_,
        ?_, rfl⟩
      · simp only [passWordSearchHandler, symbol, ok_bind, if_pos same, if_neg whole]
      · rw [if_neg whole]
        exact ⟨rfl, rfl, last, by omega, text⟩
  · rw [if_neg fun h => same (Option.some.inj h)]
    obtain ⟨heap', freed⟩ := text.freed
    refine ⟨heap', { p with
      currentIndex := if (0x75 : UInt8) = b then 1 else 0, last := false,
      current := .userWordSearch }, ?_, ?_, rfl⟩
    · simp only [passWordSearchHandler, symbol, ok_bind, if_neg same, freed]
      rfl
    · exact restart_holds rfl rfl rfl

/-- The reset of the user part frees nothing, so it cannot fail. -/
theorem userReadReset_refines (heap : Heap) (p : DissecParser) (b : UInt8) :
    ∃ p', userReadReset p b = .ok p' ∧ Dissects heap p' (restart b) ∧ p'.printed = p.printed :=
  ⟨_, rfl, restart_holds rfl rfl rfl, rfl⟩

/-- The reset of the password part frees two blocks, or one if the password has none. -/
theorem passReadReset_refines (b : UInt8) (text : Ended heap p.username name)
    (field : p.currentIndex ≠ 0 →
      ∃ a, p.password = some a ∧ heap.block a ≠ none ∧ p.username ≠ some a) :
    ∃ heap' p', passReadReset heap p b = .ok (heap', p') ∧ Dissects heap' p' (restart b) ∧
      p'.printed = p.printed := by
  let reset : DissecParser := { p with
    currentIndex := if (0x75 : UInt8) = b then 1 else 0, last := false, current := .userWordSearch }
  by_cases none : p.currentIndex = 0
  · obtain ⟨heap', freed⟩ := text.freed
    refine ⟨heap', reset, ?_, restart_holds rfl rfl rfl, rfl⟩
    rw [passReadReset, if_neg (not_not.mpr none)]
    simp only [freed, ok_bind]
    rfl
  · obtain ⟨a, password, live, apart⟩ := field none
    obtain ⟨block, here⟩ := Option.ne_none_iff_exists'.mp live
    obtain ⟨c, content, username, low, text, front⟩ := text
    have other : c ≠ a := fun same => apart (username.trans (congrArg some same))
    have left : Ended ⟨Function.update heap.block a Option.none, heap.next⟩ p.username name :=
      ⟨c, content, username, low, (Function.update_of_ne other _ _).trans text, front⟩
    obtain ⟨heap', freed⟩ := left.freed
    have first : heap.free p.password =
        .ok ⟨Function.update heap.block a Option.none, heap.next⟩ := by
      rw [password, Heap.free, here]
    refine ⟨heap', reset, ?_, restart_holds rfl rfl rfl, rfl⟩
    rw [passReadReset, if_pos none]
    simp only [first, freed, ok_bind]
    rfl

/-- The tests of both handlers, in their order, against the steps of the early machine. -/
theorem field_tests {α : Type} {motive : FieldStep → α → Prop} {reset return' ends byte other : α}
    (onReset : motive .breaks reset)
    (onReturn : last = false → b = cr → motive (.reads bytes true) return')
    (onEnds : b = lf → motive .ends ends)
    (onByte : last = false → motive (.reads (bytes ++ [b]) false) byte)
    (onOther : motive .breaks other) :
    motive (fieldStep true bytes last b)
      (if 255 ≤ bytes.length then reset
        else if (last && decide (b ≠ 0x0A)) = true then reset
        else if b = 0x0D then return'
        else if b = 0x0A then ends
        else if b ≤ 127 then byte
        else other) := by
  by_cases full : maxField ≤ bytes.length
  · rw [fieldStep_full full, if_pos (show 255 ≤ bytes.length from full)]
    exact onReset
  have room : bytes.length < maxField := Nat.lt_of_not_le full
  rw [if_neg (show ¬ 255 ≤ bytes.length from full)]
  by_cases isLf : b = lf
  · rw [isLf, fieldStep_lf true fun _ => room, if_neg (by simp [lf]),
      if_neg (show ¬ lf = 0x0D from lf_ne_cr), if_pos (show lf = 0x0A from rfl)]
    exact onEnds isLf
  cases last with
  | true =>
    rw [fieldStep_pending true isLf, if_pos (by simpa [lf] using isLf)]
    exact onReset
  | false =>
    rw [if_neg (by simp)]
    by_cases isCr : b = cr
    · rw [isCr, fieldStep_cr true fun _ => room, if_pos (show cr = 0x0D from rfl)]
      exact onReturn rfl isCr
    rw [if_neg (show b ≠ 0x0D from isCr), if_neg (show b ≠ 0x0A from isLf)]
    by_cases low : b ≤ 127
    · rw [fieldStep_byte true low isCr isLf room, if_pos low]
      exact onByte rfl
    · rw [fieldStep_other true isCr isLf fun h => low h.1, if_neg low]
      exact onOther

theorem username_refines (b : UInt8) (h : Dissects heap p (.username bytes last)) :
    ∃ heap' p', userReadHandler heap p b = .ok (heap', p') ∧
      Dissects heap' p' ((Scanner.username bytes last).feed true b).1 ∧ p'.printed = p.printed := by
  obtain ⟨current, index, rfl, field⟩ := h
  obtain ⟨reset, ran, restarted, silent⟩ := userReadReset_refines heap p b
  rw [feed, userReadHandler, index]
  apply field_tests (motive := fun step (r : Result (Heap × DissecParser)) =>
    ∃ heap' p', r = .ok (heap', p') ∧
    Dissects heap' p' (nameStep b bytes step).1 ∧ p'.printed = p.printed)
  · rw [ran]
    exact ⟨heap, reset, rfl, restarted, silent⟩
  · intro quiet isCr
    exact ⟨heap, _, rfl, ⟨rfl, rfl, rfl, field⟩, rfl⟩
  · intro isLf
    obtain ⟨a, block, heap₁, heap₂, sized, stored, grown⟩ := checkSize_store field 0
    refine ⟨heap₂, { p with
      username := some a, currentIndex := 0, last := false, current := .passWordSearch }, ?_,
      ⟨rfl, rfl, rfl, by decide, grown.ended⟩, rfl⟩
    simp only [sized, stored, ok_bind]
  · intro quiet
    obtain ⟨a, block, heap₁, heap₂, sized, stored, grown⟩ := checkSize_store field b
    refine ⟨heap₂, { p with
      username := some a, currentIndex := bytes.length + 1, current := .userRead }, ?_,
      ⟨rfl, by simp, quiet, grown.growing⟩, rfl⟩
    simp only [sized, stored, ok_bind]
  · rw [ran]
    exact ⟨heap, reset, rfl, restarted, silent⟩

theorem password_refines (user : Ptr) (b : UInt8)
    (h : Dissects heap p (.password name bytes last)) :
    ∃ heap' p', passReadHandler user heap p b = .ok (heap', p') ∧
      Dissects heap' p' ((Scanner.password name bytes last).feed true b).1 ∧
      p'.printed = p.printed ++
        ((Scanner.password name bytes last).feed true b).2.map (shown user) := by
  obtain ⟨current, index, rfl, text, field, apart⟩ := h
  have blocks : p.currentIndex ≠ 0 →
      ∃ a, p.password = some a ∧ heap.block a ≠ none ∧ p.username ≠ some a := by
    intro some'
    have nonempty : bytes ≠ [] := fun none => some' (by rw [index, none]; rfl)
    obtain ⟨a, block, password, -, here, -⟩ := field nonempty
    exact ⟨a, password, by rw [here]; exact nofun,
      fun same => apart nonempty (same.trans password.symm)⟩
  obtain ⟨heap₀, reset, ran, restarted, silent⟩ := passReadReset_refines b text blocks
  have silent' := silent.trans (List.append_nil _).symm
  have other : bytes = [] ∨ p.password ≠ p.username := by
    by_cases empty : bytes = []
    · exact Or.inl empty
    · exact Or.inr (Ne.symm (apart empty))
  rw [feed, passReadHandler, index]
  apply field_tests (motive := fun step (r : Result (Heap × DissecParser)) =>
    ∃ heap' p', r = .ok (heap', p') ∧
    Dissects heap' p' (passStep b name bytes step).1 ∧
    p'.printed = p.printed ++ (passStep b name bytes step).2.map (shown user))
  · exact ⟨heap₀, reset, ran, restarted, silent'⟩
  · intro quiet isCr
    exact ⟨heap, _, rfl, ⟨rfl, rfl, rfl, text, field, apart⟩, (List.append_nil _).symm⟩
  · intro isLf
    obtain ⟨a, block, heap₁, heap₂, sized, stored, grown⟩ := checkSize_store field 0
    obtain ⟨text', apart'⟩ := text.kept grown other
    obtain ⟨c, nameBlock, loaded, nameText⟩ := text'.printed
    obtain ⟨d, passBlock, loaded', passText⟩ := grown.ended.printed
    let printing : DissecParser := { p with
      currentIndex := bytes.length, password := some a
      printed := p.printed ++ [⟨user, chars name, chars bytes⟩] }
    have live : printing.currentIndex ≠ 0 →
        ∃ a', printing.password = some a' ∧ heap₂.block a' ≠ none ∧ printing.username ≠ some a' :=
      fun _ => ⟨a, rfl, by rw [grown.here]; exact nofun, apart'⟩
    obtain ⟨heap₃, done, ended, restarted', printed⟩ :=
      passReadReset_refines b (p := printing) text' live
    rw [isLf, restart_lf] at restarted'
    refine ⟨heap₃, done, ?_, restarted', printed⟩
    simp only [sized, stored, loaded, loaded', nameText, passText, ok_bind]
    exact ended
  · intro quiet
    obtain ⟨a, block, heap₁, heap₂, sized, stored, grown⟩ := checkSize_store field b
    obtain ⟨text', apart'⟩ := text.kept grown other
    refine ⟨heap₂, { p with
      password := some a, currentIndex := bytes.length + 1, current := .passRead }, ?_,
      ⟨rfl, by simp, quiet, text', grown.growing, fun _ => apart'⟩, (List.append_nil _).symm⟩
    simp only [sized, stored, ok_bind]
  · -- the reset of the user part leaves both blocks allocated
    obtain ⟨reset, ran, restarted, silent⟩ := userReadReset_refines heap p b
    rw [ran]
    exact ⟨heap, reset, rfl, restarted, silent.trans (List.append_nil _).symm⟩

/-- A byte never makes the dissector fail, and does to it what it does to the machine. -/
theorem dissecParserFeed_refines {q : Scanner} (user : Ptr) (b : UInt8) (h : Dissects heap p q) :
    ∃ heap' p', dissecParserFeed user (heap, p) b = .ok (heap', p') ∧
      Dissects heap' p' (q.feed true b).1 ∧
      p'.printed = p.printed ++ (q.feed true b).2.map (shown user) := by
  cases q with
  | userWord k =>
    obtain ⟨p', ran, holds, silent⟩ := userWord_refines b h
    have quiet : ((Scanner.userWord k).feed true b).2 = [] := by
      rw [feed]
      split
      · rfl
      · rfl
    refine ⟨heap, p', ?_, holds, by rw [quiet, silent]; exact (List.append_nil _).symm⟩
    simp only [dissecParserFeed, h.1, ran, ok_bind]
  | username bytes last =>
    obtain ⟨heap', p', ran, holds, silent⟩ := username_refines b h
    have quiet : ((Scanner.username bytes last).feed true b).2 = [] := by
      rw [feed]
      cases fieldStep true bytes last b with
      | reads => rfl
      | ends => rfl
      | breaks => rfl
    refine ⟨heap', p', ?_, holds, by rw [quiet, silent]; exact (List.append_nil _).symm⟩
    simp only [dissecParserFeed, h.1, ran]
  | passWord name k =>
    obtain ⟨heap', p', ran, holds, silent⟩ := passWord_refines b h
    have quiet : ((Scanner.passWord name k).feed true b).2 = [] := by
      rw [feed]
      split
      · rfl
      · rfl
    refine ⟨heap', p', ?_, holds, by rw [quiet, silent]; exact (List.append_nil _).symm⟩
    simp only [dissecParserFeed, h.1, ran]
  | password name bytes last =>
    obtain ⟨heap', p', ran, holds, printed⟩ := password_refines user b h
    refine ⟨heap', p', ?_, holds, printed⟩
    simp only [dissecParserFeed, h.1, ran]

/-! ## Streams -/

theorem dissecConsume_refines {q : Scanner} (user : Ptr) (s : List UInt8) (h : Dissects heap p q) :
    ∃ heap' p', dissecConsume user s (heap, p) = .ok (heap', p') ∧
      p'.printed = p.printed ++ (emit (feed true) q s).map (shown user) := by
  induction s generalizing heap p q with
  | nil => exact ⟨heap, p, rfl, (List.append_nil _).symm⟩
  | cons b s ih =>
    obtain ⟨heap₁, p₁, ran, holds, printed⟩ := dissecParserFeed_refines user b h
    obtain ⟨heap₂, p₂, rest, printed'⟩ := ih holds
    refine ⟨heap₂, p₂, ?_, ?_⟩
    · rw [dissecConsume, ran]
      exact rest
    · rw [printed', printed, emit, List.map_append, List.append_assoc]

theorem dissecConsume_append (user : Ptr) (s t : List UInt8) (σ : Heap × DissecParser) :
    dissecConsume user (s ++ t) σ = dissecConsume user s σ >>= dissecConsume user t := by
  induction s generalizing σ with
  | nil => rfl
  | cons b s ih =>
    rw [List.cons_append, dissecConsume, dissecConsume]
    cases dissecParserFeed user σ b with
    | error fault => rfl
    | ok τ => exact ih τ

/-- The chunks one after another are the stream. -/
theorem dissecConsume_chunks (user : Ptr) (chunks : List (List UInt8)) (σ : Heap × DissecParser) :
    chunks.foldlM (fun σ chunk => dissecConsume user chunk σ) σ =
      dissecConsume user chunks.flatten σ := by
  induction chunks generalizing σ with
  | nil => rfl
  | cons chunk chunks ih =>
    rw [List.foldlM_cons, List.flatten_cons, dissecConsume_append]
    cases dissecConsume user chunk σ with
    | error fault => rfl
    | ok τ => exact ih τ

theorem init_holds (heap : Heap) (p : DissecParser) : Dissects heap (dissecParserInit p) idle :=
  ⟨rfl, rfl, rfl, by decide⟩

/-- A login that the dissector can print: shorter fields than the limit, without a zero byte. -/
def Printable (pair : List UInt8 × List UInt8) : Prop :=
  Short pair ∧ (0 : UInt8) ∉ pair.1 ∧ (0 : UInt8) ∉ pair.2

/-- The part of a login that is printed. -/
def cut (pair : List UInt8 × List UInt8) : List UInt8 × List UInt8 := (chars pair.1, chars pair.2)

theorem cut_plain {pairs : List (List UInt8 × List UInt8)}
    (plain : ∀ pair ∈ pairs, Printable pair) : pairs.map cut = pairs := by
  have same : ∀ pair ∈ pairs, cut pair = id pair := by
    intro pair member
    obtain ⟨-, name, pass⟩ := plain pair member
    rw [cut, chars_of_plain.mpr name, chars_of_plain.mpr pass]
    rfl
  rw [List.map_congr_left same, List.map_id]

theorem cut_printable {pair : List UInt8 × List UInt8} (short : Short pair) :
    Printable (cut pair) := by
  refine ⟨⟨?_, ?_⟩, chars_of_plain.mp (chars_chars _), chars_of_plain.mp (chars_chars _)⟩
  · exact Nat.lt_of_le_of_lt (List.takeWhile_sublist _).length_le short.1
  · exact Nat.lt_of_le_of_lt (List.takeWhile_sublist _).length_le short.2

/-- Whatever the chunks, the dissector does not fail. If it prints the logins of the stream,
each is printable, and if each is and no password behind a name of 255 bytes is too long, it
prints them. -/
theorem logins_printed_iff (user : Ptr) (heap : Heap) (p : DissecParser) (chunks : List (List UInt8)) :
    ∃ heap' p' printed, chunks.foldlM (fun σ chunk => dissecConsume user chunk σ)
        (heap, dissecParserInit p) = .ok (heap', p') ∧
      p'.printed = p.printed ++ printed.map (fun pair => ⟨user, pair.1, pair.2⟩) ∧
      (printed = logins chunks.flatten → ∀ pair ∈ logins chunks.flatten, Printable pair) ∧
      (idle.hasOverLong chunks.flatten = false →
        (printed = logins chunks.flatten ↔ ∀ pair ∈ logins chunks.flatten, Printable pair)) := by
  obtain ⟨heap', p', ran, out⟩ := dissecConsume_refines user chunks.flatten (init_holds heap p)
  have found : ∀ pair ∈ (emit (feed true) idle chunks.flatten).map cut, Printable pair := by
    intro pair member
    obtain ⟨whole, here, rfl⟩ := List.mem_map.mp member
    exact cut_printable (early_short (q := idle) trivial _ whole here)
  have only : (emit (feed true) idle chunks.flatten).map cut = logins chunks.flatten →
      ∀ pair ∈ logins chunks.flatten, Printable pair := fun same => same ▸ found
  refine ⟨heap', p', (emit (feed true) idle chunks.flatten).map cut, ?_, ?_, only, ?_⟩
  · rw [dissecConsume_chunks]
    exact ran
  · rw [out, List.map_map]
    rfl
  · intro short
    refine ⟨only, fun printable => ?_⟩
    have early : emit (feed true) idle chunks.flatten = emit (feed false) idle chunks.flatten := by
      apply emit_early (q := idle) (.same trivial)
      · intro pair member
        rw [emit_logins] at member
        exact (printable pair member).1
      · exact short
    rw [early, emit_logins, cut_plain printable]

/-- "user ", the name and the end of the line, "+OK", "pass p" and the end of the line. -/
def loginOf (name : List UInt8) : List UInt8 :=
  [117, 115, 101, 114, 32] ++ name ++ [13, 10, 43, 79, 75, 13, 10, 112, 97, 115, 115, 32, 112, 13, 10]

/-- The login `u`, `p` in three chunks. -/
theorem logins_printed_chunks : ∃ heap' p', [[117, 115], [101, 114, 32, 117, 10, 43, 79],
      [75, 13, 10, 112, 97, 115, 115, 32, 112, 13, 10]].foldlM
        (fun σ chunk => dissecConsume none chunk σ)
        (Heap.empty, dissecParserInit ⟨.userWordSearch, 0, false, none, none, []⟩) =
      .ok (heap', p') ∧
    p'.printed = [⟨none, [117], [112]⟩] := by
  let chunks : List (List UInt8) := [[117, 115], [101, 114, 32, 117, 10, 43, 79],
    [75, 13, 10, 112, 97, 115, 115, 32, 112, 13, 10]]
  have found : logins chunks.flatten = [([117], [112])] := by
    rw [← emit_logins]
    decide +kernel
  obtain ⟨heap', p', printed, ran, out, -, exact'⟩ := logins_printed_iff none Heap.empty
    ⟨.userWordSearch, 0, false, none, none, []⟩ chunks
  have all := (exact' (by decide +kernel)).mpr (by
    intro pair member
    rw [found, List.mem_singleton] at member
    rw [member]
    exact ⟨⟨by decide, by decide⟩, by decide, by decide⟩)
  rw [all, found] at out
  exact ⟨heap', p', ran, out⟩

/-- The scan finds the login of a name of 255 bytes, and the dissector prints nothing. -/
theorem full_name_missed : ∃ heap' p', dissecConsume none (loginOf (List.replicate 255 97))
      (Heap.empty, dissecParserInit ⟨.userWordSearch, 0, false, none, none, []⟩) = .ok (heap', p') ∧
    p'.printed = [] ∧
    logins (loginOf (List.replicate 255 97)) = [(List.replicate 255 97, [112])] := by
  obtain ⟨heap', p', ran, printed⟩ := dissecConsume_refines none (loginOf (List.replicate 255 97))
    (init_holds Heap.empty ⟨.userWordSearch, 0, false, none, none, []⟩)
  have nothing : emit (feed true) idle (loginOf (List.replicate 255 97)) = [] := by decide +kernel
  rw [nothing] at printed
  refine ⟨heap', p', ran, printed, ?_⟩
  rw [← emit_logins]
  decide +kernel

end

end SocksProxy
