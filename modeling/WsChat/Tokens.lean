import WsChat.CommandLine

/-! How a command line is cut: the word, the blanks and the arguments are the whole of it, and
what the handlers read after that is taken off the front piece by piece. -/
namespace WsChat
open Lib

/-- A line of a slash, a word, the blanks behind it and the rest. -/
structure Tokens (msg cmd ws args : Bytes) : Prop where
  text : msg = 47 :: (cmd ++ (ws ++ args))
  nonempty : cmd ≠ []
  word : ∀ b ∈ cmd, ¬ isSpace b
  ends : Separated (ws ++ args)
  blanks : ∀ b ∈ ws, isSpace b
  front : ∀ b ∈ args.head?, ¬ isSpace b

theorem Tokens.cut {msg cmd ws args : Bytes} (h : Tokens msg cmd ws args) :
    cmd = msg.tail.takeWhile (fun b => !isSpace b) ∧
      ws = (msg.tail.dropWhile fun b => !isSpace b).takeWhile isSpace ∧
      args = (msg.tail.dropWhile fun b => !isSpace b).dropWhile isSpace := by
  have htail : msg.tail = cmd ++ (ws ++ args) := by rw [h.text, List.tail_cons]
  obtain ⟨hword, hrest⟩ := takeWhile_word h.word h.ends
  rw [htail, hword, hrest, List.takeWhile_append_of_pos h.blanks, List.dropWhile_append_of_pos h.blanks]
  cases args with
  | nil => simp
  | cons b args =>
    have hb : ¬ isSpace b := h.front b rfl
    simp [hb]

theorem Tokens.of_word {rest : Bytes} (hword : rest.takeWhile (fun b => !isSpace b) ≠ []) :
    Tokens (47 :: rest) (rest.takeWhile fun b => !isSpace b)
      ((rest.dropWhile fun b => !isSpace b).takeWhile isSpace)
      ((rest.dropWhile fun b => !isSpace b).dropWhile isSpace) := by
  refine ⟨?_, hword, ?_, ?_, ?_, ?_⟩
  · rw [List.takeWhile_append_dropWhile, List.takeWhile_append_dropWhile]
  · intro b hb
    simpa using List.mem_takeWhile_imp hb
  · rw [List.takeWhile_append_dropWhile]
    intro b hb
    have hdrop := List.head?_dropWhile_not (fun b => !isSpace b) rest
    rw [hb] at hdrop
    simpa using hdrop
  · intro b hb
    exact List.mem_takeWhile_imp hb
  · intro b hb
    have hdrop := List.head?_dropWhile_not isSpace (rest.dropWhile fun b => !isSpace b)
    rw [hb] at hdrop
    simpa using hdrop

namespace RegexParser

/-- What a call of `next` does to the unparsed input: a match is taken off its front, can be read
and leaves the suffix, and otherwise the input stays. -/
structure Consumes (p : RegexParser) (rx : Regex UInt8) : Prop where
  iff : (p.next rx).1 = true ↔ p.nextInput ≠ [] ∧ (rx.search p.nextInput).isSome
  success : (p.next rx).1 = true → ∃ mt, rx.search p.nextInput = some mt ∧
    (p.next rx).2.read 0 = some mt.text ∧ p.nextInput = mt.text ++ (p.next rx).2.nextInput ∧
      (p.next rx).2.suffix = (p.next rx).2.nextInput
  failure : (p.next rx).1 = false → (p.next rx).2.nextInput = p.nextInput

def after (p : RegexParser) (rxs : List (Regex UInt8)) : RegexParser :=
  rxs.foldl (fun p rx => (p.next rx).2) p

def taken (p : RegexParser) : List (Regex UInt8) → List Bytes
  | [] => []
  | rx :: rxs => (if (p.next rx).1 then ((p.next rx).2.read 0).toList else []) ++ (p.next rx).2.taken rxs

variable {p : RegexParser} {rx : Regex UInt8}

theorem next_exhausted (h : p.nextInput = []) : p.next rx = (false, p) := if_pos h

theorem read_zero (next suffix text : Bytes) (groups : List Bytes) :
    read { iter := 0, nextInput := next, groups := text :: groups, matchSuffix := suffix } 0 = some text := by
  have hbounds : (0 : Int) ≤ 0 ∧ (0 : Int) ≤ 0 ∧ (0 : Int) < (text :: groups).length := by
    rw [List.length_cons]
    omega
  rw [read, if_pos hbounds]
  rfl

theorem Consumes.of_anchored (h : rx.Anchored) : p.Consumes rx := by
  by_cases hne : p.nextInput = []
  · have hnext : p.next rx = (false, p) := next_exhausted hne
    refine ⟨?_, ?_, ?_⟩
    · rw [hnext]
      simp [hne]
    · intro hyes
      rw [hnext] at hyes
      cases hyes
    · intro _
      rw [hnext]
  cases hsearch : rx.search p.nextInput with
  | none =>
    have hnext := next_none hne hsearch
    refine ⟨?_, ?_, ?_⟩
    · rw [hnext, hsearch]
      simp
    · intro hyes
      rw [hnext] at hyes
      cases hyes
    · intro _
      rw [hnext]
  | some mt =>
    have hnext := next_some hne hsearch
    have hcut := Regex.search_lossless hsearch
    rw [h _ _ hsearch, List.nil_append] at hcut
    refine ⟨?_, ?_, ?_⟩
    · rw [hnext, hsearch]
      simp [hne]
    · intro _
      rw [hnext]
      exact ⟨mt, hsearch, read_zero _ _ _ _, hcut.symm, rfl⟩
    · intro hno
      rw [hnext] at hno
      cases hno

theorem taken_after (rxs : List (Regex UInt8)) (h : ∀ rx ∈ rxs, rx.Anchored) (p : RegexParser) :
    (p.taken rxs).flatten ++ (p.after rxs).nextInput = p.nextInput := by
  induction rxs generalizing p with
  | nil => rfl
  | cons rx rxs ih =>
    have hone : p.Consumes rx := Consumes.of_anchored (h rx List.mem_cons_self)
    have hrest := ih (fun rx hrx => h rx (List.mem_cons_of_mem _ hrx)) (p.next rx).2
    have hafter : p.after (rx :: rxs) = (p.next rx).2.after rxs := rfl
    rw [taken, hafter, List.flatten_append, List.append_assoc, hrest]
    cases hyes : (p.next rx).1 with
    | true =>
      obtain ⟨mt, -, hread, hcut, -⟩ := hone.success hyes
      rw [hread, hcut]
      simp
    | false => simp [hone.failure hyes]

end RegexParser

theorem Rx.anchored :
    ∀ rx ∈ [Rx.cmd, Rx.spaces, Rx.toSpace, Rx.int, Rx.ip, Rx.color], Regex.Anchored rx := by
  intro rx hrx
  have hbol : ∃ r, rx = .seq .bol r := by
    simp only [List.mem_cons, List.not_mem_nil, or_false] at hrx
    rcases hrx with rfl | rfl | rfl | rfl | rfl | rfl <;> exact ⟨_, rfl⟩
  obtain ⟨r, rfl⟩ := hbol
  exact Regex.anchored_bol r

theorem PacketMessage.processCommand_wordless (env : Env) (w : World) (m : MemberPtr) (r : RoomPtr)
    {rest : Bytes} (h : rest.takeWhile (fun b => !isSpace b) = []) :
    PacketMessage.processCommand env w m r (47 :: rest) = some (PacketMessage.badcmd w m r) := by
  have hsearch : Rx.cmd.search (47 :: rest) = none := by rw [Rx.cmd_search_eq, if_pos h]
  have hnext := RegexParser.next_none (p := RegexParser.ofInput (47 :: rest)) (List.cons_ne_nil 47 rest) hsearch
  unfold PacketMessage.processCommand
  rw [if_neg (by simp)]
  dsimp only
  rw [hnext]
  rfl

/-- A line that starts with a slash is a word, blanks and arguments, and is looked up under the
word with the cursor in front of the arguments, which the calls of the handlers take off piece by
piece; or it has no word, and there is no such command. -/
theorem PacketMessage.processCommand_tokens (env : Env) (w : World) (m : MemberPtr) (r : RoomPtr) {msg : Bytes}
    (hslash : msg.head? = some 47) :
    (∃ cmd ws args, ∃ parser : RegexParser, Tokens msg cmd ws args ∧
      parser.suffix = args ∧ parser.nextInput = args ∧
      PacketMessage.processCommand env w m r msg =
        some ((PacketMessage.findCommand w m cmd).elim (PacketMessage.badcmd w m r)
          fun command => command.process env w m parser) ∧
      ∀ rxs : List (Regex UInt8), (∀ rx ∈ rxs, rx.Anchored) →
        (parser.taken rxs).flatten ++ (parser.after rxs).nextInput = args ∧
        ∀ rx : Regex UInt8, rx.Anchored → (parser.after rxs).Consumes rx) ∨
    (∀ cmd ws args, ¬ Tokens msg cmd ws args) ∧
      PacketMessage.processCommand env w m r msg = some (PacketMessage.badcmd w m r) := by
  cases msg with
  | nil => cases hslash
  | cons b rest =>
    have hb : b = 47 := by simpa using hslash
    subst hb
    by_cases hword : rest.takeWhile (fun b => !isSpace b) = []
    · refine .inr ⟨?_, PacketMessage.processCommand_wordless env w m r hword⟩
      intro cmd ws args htokens
      have hrest : rest = cmd ++ (ws ++ args) := (List.cons.inj htokens.text).2
      rw [hrest, (takeWhile_word htokens.word htokens.ends).1] at hword
      exact htokens.nonempty hword
    · have htokens := Tokens.of_word hword
      have hrest : rest = rest.takeWhile (fun b => !isSpace b) ++ rest.dropWhile (fun b => !isSpace b) :=
        List.takeWhile_append_dropWhile.symm
      have hends : Separated (rest.dropWhile fun b => !isSpace b) := by
        have hends := htokens.ends
        rw [List.takeWhile_append_dropWhile] at hends
        exact hends
      obtain ⟨parser, hat, hprocess⟩ :=
        PacketMessage.processCommand_word env w m r htokens.nonempty htokens.word hends
      rw [← hrest] at hprocess
      refine .inl ⟨_, _, _, parser, htokens, hat.suffix, hat.next, hprocess, ?_⟩
      intro rxs hrxs
      refine ⟨?_, fun rx hrx => RegexParser.Consumes.of_anchored hrx⟩
      rw [RegexParser.taken_after rxs hrxs, hat.next]

theorem PacketMessage.processCommand_tokens_nick : ∃ parser : RegexParser, parser.suffix = utf8 "foo" ∧
    PacketMessage.processCommand Sample.surroundings {} ⟨0⟩ ⟨0⟩ (utf8 "/nick  foo") =
      some (Command.nick.process Sample.surroundings {} ⟨0⟩ parser) ∧
    (parser.taken [Rx.toSpace]).flatten ++ (parser.after [Rx.toSpace]).nextInput = utf8 "foo" := by
  have hcut : (utf8 "/nick  foo").tail.takeWhile (fun b => !isSpace b) = utf8 "nick" ∧
      ((utf8 "/nick  foo").tail.dropWhile fun b => !isSpace b).takeWhile isSpace = utf8 "  " ∧
      ((utf8 "/nick  foo").tail.dropWhile fun b => !isSpace b).dropWhile isSpace = utf8 "foo" ∧
      PacketMessage.findCommand {} ⟨0⟩ (utf8 "nick") = some .nick := by decide +kernel
  obtain ⟨hcmd, hws, hargs, hfind⟩ := hcut
  have hslash : (utf8 "/nick  foo").head? = some 47 := by decide +kernel
  cases PacketMessage.processCommand_tokens Sample.surroundings {} ⟨0⟩ ⟨0⟩ hslash with
  | inl h =>
    obtain ⟨cmd, ws, args, parser, htokens, hsuffix, -, hprocess, hcalls⟩ := h
    obtain ⟨hcmd', -, hargs'⟩ := htokens.cut
    rw [hcmd', hcmd, hfind] at hprocess
    rw [hargs', hargs] at hsuffix hcalls
    exact ⟨parser, hsuffix, hprocess, (hcalls _ fun rx hrx => Rx.anchored rx (by simp_all)).1⟩
  | inr h =>
    have hline : utf8 "/nick  foo" = 47 :: (utf8 "/nick  foo").tail := by decide +kernel
    have hword : (utf8 "/nick  foo").tail.takeWhile (fun b => !isSpace b) ≠ [] := by
      rw [hcmd]
      decide +kernel
    have htokens := Tokens.of_word hword
    rw [← hline] at htokens
    exact absurd htokens (h.1 _ _ _)

end WsChat
