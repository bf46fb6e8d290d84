/-
# GunyahRuntime.Auxv -- the first stack of the application (`auxvec.c`)

`elf_setup` builds the stack downwards, one word at a time: an end marker, padding, the auxiliary vector,
the environment and the arguments. The start-up code of the application reads it upwards. The model has
both: the pushes as the source makes them, on a memory of bytes, and `readStartup`, the convention by which
a Linux program on AArch64 finds its arguments.

What ties them together is the list of the words from the stack pointer up. A push puts a word in front of
the list, and the reader takes the list apart.
-/
import GunyahRuntime.Mmap.Node
import GunyahRuntime.Lib.Bytes

namespace GunyahRuntime

open Lib (Addr Mem Within)

/-! ## Pushing -/

/-- The stack under construction: `stack` points at the word pushed last. -/
structure StackBuild where
  mem : Mem
  stack : Addr

/-- `fill_entry(stack, value)`. -/
def fillEntry (s : StackBuild) (value : BitVec 64) : StackBuild :=
  ⟨s.mem.write (s.stack - 8) 8 value, s.stack - 8⟩

/-- `fill_auxv_entry(stack, key, value)`. -/
def fillAuxvEntry (s : StackBuild) (key value : BitVec 64) : StackBuild :=
  fillEntry (fillEntry s value) key

/-- The loops that push an array from its last element down to its first. -/
def fillDown (values : Nat → BitVec 64) (s : StackBuild) : Nat → StackBuild
  | 0 => s
  | idx + 1 => fillDown values (fillEntry s (values idx)) idx

/-- The loop that pushes the padding. -/
def fillPad (s : StackBuild) : Nat → StackBuild
  | 0 => s
  | pad + 1 => fillPad (fillEntry s 0) pad

/-! ## The auxiliary vector -/

def AT_PHDR : BitVec 64 := 3
def AT_PHENT : BitVec 64 := 4
def AT_PHNUM : BitVec 64 := 5
def AT_PAGESZ : BitVec 64 := 6
def AT_RANDOM : BitVec 64 := 25
def AT_EXECFN : BitVec 64 := 31

/-- `sizeof(Elf64_Phdr)`. -/
def sizeofPhdr : BitVec 64 := 56

/-- `Elf64_Ehdr`, the members that are read. -/
structure Ehdr where
  eEntry : BitVec 64
  ePhoff : BitVec 64
  ePhnum : BitVec 16

/-- `gunyah_hyp_prng_get_entropy_result_t`. -/
structure EntropyResult where
  error : Int
  data0 : BitVec 32
  data1 : BitVec 32
  data2 : BitVec 32
  data3 : BitVec 32

/-- `aux_entropy`. -/
structure AuxEntropy where
  word0 : BitVec 32
  word1 : BitVec 32
  word2 : BitVec 32
  word3 : BitVec 32

/-- `get_aux_entropy()`: `ret` is what the hypervisor returns. -/
def getAuxEntropy (aux : AuxEntropy) (ret : EntropyResult) : Bool × AuxEntropy :=
  (ret.error = OK, if ret.error = OK then ⟨ret.data0, ret.data1, ret.data2, ret.data3⟩ else aux)

/-- Where the two objects are that the vector points at. -/
structure AuxAddrs where
  appName : Addr
  auxEntropy : Addr

/-- `setup_auxvector(stack, app_addr)`: the stack, `aux_entropy` and the entry address. -/
def setupAuxvector (s : StackBuild) (ehdr : Ehdr) (appAddr : Addr) (addrs : AuxAddrs) (aux : AuxEntropy)
    (ret : EntropyResult) : StackBuild × AuxEntropy × Addr :=
  let phdrAddr := ehdr.ePhoff + appAddr
  let phEntryCnt := ehdr.ePhnum.setWidth 64
  let entryAddr := ehdr.eEntry + appAddr
  let p := fillAuxvEntry s AT_PAGESZ (BitVec.ofNat 64 PAGE_SIZE)
  let p := fillAuxvEntry p AT_PHDR phdrAddr
  let p := fillAuxvEntry p AT_PHENT sizeofPhdr
  let p := fillAuxvEntry p AT_PHNUM phEntryCnt
  let p := fillAuxvEntry p AT_EXECFN addrs.appName
  let r := getAuxEntropy aux ret
  let p := if r.1 then fillAuxvEntry p AT_RANDOM addrs.auxEntropy else p
  (p, r.2, entryAddr)

/-! ## The environment and the arguments -/

/-- `(int32_t)x`. -/
def toInt32 (x : Nat) : Int :=
  if u32 x < 2147483648 then (u32 x : Int) else (u32 x : Int) - 4294967296

/-- `setup_envs(stack, envc, envp)`. -/
def setupEnvs (s : StackBuild) (envc : Int) (envp : Nat → BitVec 64) : Exec StackBuild := do
  cassert (envc ≥ 0)
  return fillDown envp (fillEntry s 0) envc.toNat

/-- `setup_arguments(stack, argc, arg_values)`. -/
def setupArguments (s : StackBuild) (argc : Int) (argValues : Nat → BitVec 64) : Exec StackBuild := do
  cassert (argc ≥ 0)
  let p := fillDown argValues (fillEntry s 0) argc.toNat
  return fillEntry p (BitVec.ofInt 64 argc)

/-- `device_tree_info_t`. -/
structure DeviceTreeInfo where
  argc : Nat
  argv : Nat → BitVec 64
  envc : Nat
  envp : Nat → BitVec 64

/-- `STACK_SIZE`. -/
def STACK_SIZE : Nat := 16384

/-- `pad`: how many words of padding go under the end marker, when `stack` points at it. -/
def stackPad (info : DeviceTreeInfo) (stack : Addr) : Nat :=
  let auxSizeVar := u64 ((2 + info.argc + info.envc + 1) * 8)
  u32 (u64 (auxSizeVar + stack.toNat) % 16 / 8)

/-- `elf_setup()`, from the end marker on: the entry address, and the state with the new `app_stack`. -/
def elfSetupStack (m : Mem) (appStack : Addr) (info : DeviceTreeInfo) (ehdr : Ehdr) (appAddr : Addr)
    (addrs : AuxAddrs) (aux : AuxEntropy) (ret : EntropyResult) :
    Exec (Addr × StackBuild × AuxEntropy) := do
  -- Set the end-marker
  let s := fillEntry ⟨m, appStack⟩ 0
  -- Add padding to ensure we end with a 16-byte aligned stack.
  let s := fillPad s (stackPad info s.stack)
  let (s, aux, appEntry) := setupAuxvector s ehdr appAddr addrs aux ret
  let s ← setupEnvs s (toInt32 info.envc) info.envp
  let s ← setupArguments s (toInt32 info.argc) info.argv
  -- check stack is aligned to 16-bytes
  cassert (s.stack &&& 15 = 0)
  return (appEntry, s, aux)

/-! ## Reading it back -/

/-- What a program finds on its stack. -/
structure Startup where
  argc : Nat
  argv : List (BitVec 64)
  envp : List (BitVec 64)
  auxv : List (BitVec 64 × BitVec 64)
  deriving DecidableEq

/-- `n` words from `a` up. -/
def readWords (m : Mem) (a : Addr) : Nat → List (BitVec 64)
  | 0 => []
  | n + 1 => m.read a 8 :: readWords m (a + 8) n

/-- The pointers from `a` up to a null one, and the address after it. `none`: there is no null one among the
first `fuel`. -/
def readPointers (m : Mem) : Nat → Addr → Option (List (BitVec 64) × Addr)
  | 0, _ => none
  | fuel + 1, a =>
    if m.read a 8 = 0 then some ([], a + 8)
    else (readPointers m fuel (a + 8)).map fun r => (m.read a 8 :: r.1, r.2)

/-- The pairs of a key and a value from `a` up to a key that is null. -/
def readPairs (m : Mem) : Nat → Addr → Option (List (BitVec 64 × BitVec 64))
  | 0, _ => none
  | fuel + 1, a =>
    if m.read a 8 = 0 then some []
    else (readPairs m fuel (a + 16)).map fun r => (m.read a 8, m.read (a + 8) 8) :: r

/-- The start-up convention, from the stack pointer up. -/
def readStartup (m : Mem) (fuel : Nat) (sp : Addr) : Option Startup := do
  let argc := (m.read sp 8).toNat
  let argv := readWords m (sp + 8) argc
  let null := sp + 8 + BitVec.ofNat 64 (8 * argc)
  if m.read null 8 ≠ 0 then none
  else
    let (envp, rest) ← readPointers m fuel (null + 8)
    let auxv ← readPairs m fuel rest
    return ⟨argc, argv, envp, auxv⟩

/-! ## The words of the stack -/

/-- The words `ws` lie in memory from `a` up. -/
def WordsAt (m : Mem) : Addr → List (BitVec 64) → Prop
  | _, [] => True
  | a, w :: ws => m.read a 8 = w ∧ WordsAt m (a + 8) ws

theorem wordsAt_append {m : Mem} {a : Addr} {us vs : List (BitVec 64)} :
    WordsAt m a (us ++ vs) ↔ WordsAt m a us ∧ WordsAt m (a + BitVec.ofNat 64 (8 * us.length)) vs := by
  induction us generalizing a with
  | nil => simp [WordsAt]
  | cons u us ih =>
    have hnext : a + 8 + BitVec.ofNat 64 (8 * us.length) =
        a + BitVec.ofNat 64 (8 * (u :: us).length) := by
      rw [List.length_cons]
      bv_omega
    rw [List.cons_append, WordsAt, WordsAt, ih, hnext, and_assoc]

/-- The words are their bytes. -/
theorem WordsAt.congr {m m' : Mem} {a : Addr} {ws : List (BitVec 64)} (h : WordsAt m a ws)
    (hlen : 8 * ws.length ≤ 18446744073709551616)
    (hsame : ∀ x, Within a (8 * ws.length) x → m x = m' x) : WordsAt m' a ws := by
  induction ws generalizing a with
  | nil => trivial
  | cons w ws ih =>
    obtain ⟨hw, hws⟩ := h
    rw [List.length_cons] at hlen hsame
    refine ⟨?_, ih hws (by omega) fun x hx => hsame x (hx.of_part (i := 8) (by omega) hlen)⟩
    rw [← hw]
    exact (Lib.Mem.read_congr (by decide) fun x hx => hsame x (hx.mono (by omega))).symm

/-- What has been pushed below `top`, the last word first. -/
structure Pushed (top : Addr) (ws : List (BitVec 64)) (s : StackBuild) : Prop where
  words : WordsAt s.mem s.stack ws
  stack : s.stack = top - BitVec.ofNat 64 (8 * ws.length)
  room : ws.length ≤ STACK_SIZE / 8

section Pushed

variable {top : Addr} {ws : List (BitVec 64)} {s : StackBuild}

/-- **A push** puts its word in front. -/
theorem Pushed.fillEntry (h : Pushed top ws s) (value : BitVec 64) (hroom : ws.length < STACK_SIZE / 8) :
    Pushed top (value :: ws) (fillEntry s value) := by
  have hbound : STACK_SIZE / 8 = 2048 := by decide
  refine ⟨⟨Lib.Mem.read_write _ _ _, ?_⟩, ?_, hroom⟩
  · have hback : s.stack - 8 + 8 = s.stack := BitVec.sub_add_cancel _ _
    show WordsAt _ (s.stack - 8 + 8) ws
    rw [hback]
    refine h.words.congr (by omega) fun x hx => (Lib.Mem.over_outside ?_).symm
    unfold Within at *
    bv_omega
  · have hstack := h.stack
    show s.stack - 8 = _
    rw [List.length_cons]
    bv_omega

/-- An array that is pushed from its end lies in its order. -/
theorem Pushed.fillDown (h : Pushed top ws s) (values : Nat → BitVec 64) {n : Nat}
    (hroom : n + ws.length ≤ STACK_SIZE / 8) :
    Pushed top ((List.range n).map values ++ ws) (fillDown values s n) := by
  induction n generalizing s ws with
  | zero => exact h
  | succ n ih =>
    have hnext := ih (h.fillEntry (values n) (by omega)) (by rw [List.length_cons]; omega)
    rw [List.range_succ, List.map_append, List.append_assoc]
    exact hnext

theorem Pushed.fillPad (h : Pushed top ws s) {n : Nat} (hroom : n + ws.length ≤ STACK_SIZE / 8) :
    Pushed top (List.replicate n 0 ++ ws) (fillPad s n) := by
  induction n generalizing s ws with
  | zero => exact h
  | succ n ih =>
    have hnext := ih (h.fillEntry 0 (by omega)) (by rw [List.length_cons]; omega)
    rw [List.replicate_succ', List.append_assoc]
    exact hnext

end Pushed

/-- The words of a vector of pairs. -/
def pairWords : List (BitVec 64 × BitVec 64) → List (BitVec 64)
  | [] => []
  | (key, value) :: pairs => key :: value :: pairWords pairs

theorem length_pairWords (pairs : List (BitVec 64 × BitVec 64)) :
    (pairWords pairs).length = 2 * pairs.length := by
  induction pairs with
  | nil => rfl
  | cons pair pairs ih => simp [pairWords, ih]; omega

theorem Pushed.fillAuxvEntry {top : Addr} {ws : List (BitVec 64)}
    {pairs : List (BitVec 64 × BitVec 64)} {s : StackBuild} (h : Pushed top (pairWords pairs ++ ws) s)
    (key value : BitVec 64) (hroom : 2 * (pairs.length + 1) + ws.length ≤ STACK_SIZE / 8) :
    Pushed top (pairWords ((key, value) :: pairs) ++ ws) (fillAuxvEntry s key value) := by
  have hlen : (pairWords pairs ++ ws).length = 2 * pairs.length + ws.length := by
    rw [List.length_append, length_pairWords]
  refine (h.fillEntry value (by omega)).fillEntry key ?_
  rw [List.length_cons]
  omega

/-- The entries of the auxiliary vector, from the stack pointer up. -/
def auxEntries (ehdr : Ehdr) (appAddr : Addr) (addrs : AuxAddrs) (random : Bool) :
    List (BitVec 64 × BitVec 64) :=
  (if random then [(AT_RANDOM, addrs.auxEntropy)] else []) ++
    [(AT_EXECFN, addrs.appName), (AT_PHNUM, ehdr.ePhnum.setWidth 64), (AT_PHENT, sizeofPhdr),
      (AT_PHDR, ehdr.ePhoff + appAddr), (AT_PAGESZ, BitVec.ofNat 64 PAGE_SIZE)]

theorem auxEntries_keys (ehdr : Ehdr) (appAddr : Addr) (addrs : AuxAddrs) (random : Bool) :
    ∀ pair ∈ auxEntries ehdr appAddr addrs random, pair.1 ≠ 0 := by
  cases random <;>
    simp [auxEntries, AT_RANDOM, AT_EXECFN, AT_PHNUM, AT_PHENT, AT_PHDR, AT_PAGESZ]

theorem setupAuxvector_pushed {top : Addr} {ws : List (BitVec 64)} {s : StackBuild}
    (h : Pushed top ws s) (hroom : 12 + ws.length ≤ STACK_SIZE / 8) (ehdr : Ehdr) (appAddr : Addr)
    (addrs : AuxAddrs) (aux : AuxEntropy) (ret : EntropyResult) :
    ∃ s', setupAuxvector s ehdr appAddr addrs aux ret =
        (s', (getAuxEntropy aux ret).2, ehdr.eEntry + appAddr) ∧
      Pushed top (pairWords (auxEntries ehdr appAddr addrs (getAuxEntropy aux ret).1) ++ ws) s' := by
  refine ⟨_, rfl, ?_⟩
  have hfive := (((((show Pushed top (pairWords [] ++ ws) s from h).fillAuxvEntry AT_PAGESZ
      (BitVec.ofNat 64 PAGE_SIZE) ?_).fillAuxvEntry AT_PHDR (ehdr.ePhoff + appAddr) ?_).fillAuxvEntry
      AT_PHENT sizeofPhdr ?_).fillAuxvEntry AT_PHNUM (ehdr.ePhnum.setWidth 64) ?_).fillAuxvEntry
      AT_EXECFN addrs.appName ?_
  · cases hrandom : (getAuxEntropy aux ret).1 with
    | false => exact hfive
    | true => exact hfive.fillAuxvEntry AT_RANDOM addrs.auxEntropy (by simp only [List.length]; omega)
  all_goals
    simp only [List.length]
    omega

/-! ## Reading the words -/

theorem readWords_eq {m : Mem} {a : Addr} {ws : List (BitVec 64)} (h : WordsAt m a ws) :
    readWords m a ws.length = ws := by
  induction ws generalizing a with
  | nil => rfl
  | cons w ws ih => rw [List.length_cons, readWords, h.1, ih h.2]

theorem readPointers_eq {m : Mem} {a : Addr} {ws rest : List (BitVec 64)} {fuel : Nat}
    (h : WordsAt m a (ws ++ 0 :: rest)) (hws : ∀ w ∈ ws, w ≠ 0) (hfuel : ws.length < fuel) :
    readPointers m fuel a = some (ws, a + BitVec.ofNat 64 (8 * ws.length) + 8) := by
  induction ws generalizing a fuel with
  | nil =>
    obtain ⟨fuel, rfl⟩ := Nat.exists_eq_succ_of_ne_zero (Nat.ne_of_gt hfuel)
    rw [readPointers, if_pos h.1]
    simp
  | cons w ws ih =>
    rw [List.length_cons] at hfuel
    obtain ⟨fuel, rfl⟩ := Nat.exists_eq_succ_of_ne_zero (show fuel ≠ 0 by omega)
    have hrest := ih h.2 (fun w hw => hws w (List.mem_cons_of_mem _ hw)) (show ws.length < fuel by omega)
    have hnext : a + 8 + BitVec.ofNat 64 (8 * ws.length) + 8 =
        a + BitVec.ofNat 64 (8 * (ws.length + 1)) + 8 := by bv_omega
    rw [readPointers, h.1, if_neg (hws w List.mem_cons_self), hrest, Option.map_some, List.length_cons,
      hnext]

theorem readPairs_eq {m : Mem} {a : Addr} {pairs : List (BitVec 64 × BitVec 64)}
    {rest : List (BitVec 64)} {fuel : Nat} (h : WordsAt m a (pairWords pairs ++ 0 :: rest))
    (hkeys : ∀ pair ∈ pairs, pair.1 ≠ 0) (hfuel : pairs.length < fuel) :
    readPairs m fuel a = some pairs := by
  induction pairs generalizing a fuel with
  | nil =>
    obtain ⟨fuel, rfl⟩ := Nat.exists_eq_succ_of_ne_zero (Nat.ne_of_gt hfuel)
    rw [readPairs, if_pos h.1]
  | cons pair pairs ih =>
    rw [List.length_cons] at hfuel
    obtain ⟨fuel, rfl⟩ := Nat.exists_eq_succ_of_ne_zero (show fuel ≠ 0 by omega)
    obtain ⟨key, value⟩ := pair
    obtain ⟨hkey, hvalue, hrest⟩ := h
    have hnext : a + 8 + 8 = a + 16 := by bv_omega
    rw [hnext] at hrest
    rw [readPairs, hkey, if_neg (hkeys _ List.mem_cons_self), hvalue,
      ih hrest (fun pair hp => hkeys pair (List.mem_cons_of_mem _ hp)) (by omega), Option.map_some]

/-- **The convention** takes such a stack apart. -/
theorem readStartup_eq {m : Mem} {sp : Addr} {argv envp rest : List (BitVec 64)}
    {pairs : List (BitVec 64 × BitVec 64)} {fuel : Nat}
    (h : WordsAt m sp (BitVec.ofNat 64 argv.length ::
      (argv ++ 0 :: (envp ++ 0 :: (pairWords pairs ++ 0 :: rest)))))
    (hargc : argv.length < 18446744073709551616) (henvp : ∀ w ∈ envp, w ≠ 0)
    (hkeys : ∀ pair ∈ pairs, pair.1 ≠ 0) (hfuel : envp.length < fuel ∧ pairs.length < fuel) :
    readStartup m fuel sp = some ⟨argv.length, argv, envp, pairs⟩ := by
  obtain ⟨hcount, hrest⟩ := h
  obtain ⟨hargv, hnull, hrest⟩ := wordsAt_append.1 hrest
  have hpointers := readPointers_eq hrest henvp hfuel.1
  obtain ⟨-, -, hpairs⟩ := wordsAt_append.1 hrest
  have hread : (m.read sp 8).toNat = argv.length := by
    rw [hcount, BitVec.toNat_ofNat, Nat.mod_eq_of_lt hargc]
  unfold readStartup
  simp only [hread, hnull, readWords_eq hargv, ne_eq, not_true, if_false, hpointers,
    readPairs_eq hpairs hkeys hfuel.2, Option.bind_eq_bind, Option.bind_some, Option.pure_def]

/-! ## The whole stack -/

/-- How many words are pushed. -/
def pushedWords (info : DeviceTreeInfo) (pad pairs : Nat) : Nat :=
  (info.argc + 2) + (info.envc + 1) + 2 * pairs + pad + 1

theorem stackPad_eq {info : DeviceTreeInfo} {stack : Addr}
    (hsmall : info.argc + info.envc ≤ STACK_SIZE / 8) (haligned : stack.toNat % 8 = 0) :
    stackPad info stack = (info.argc + info.envc + 3 + stack.toNat / 8) % 2 := by
  have hbound : STACK_SIZE / 8 = 2048 := by decide
  unfold stackPad u64 u32
  dsimp only
  omega

theorem stackPad_le (info : DeviceTreeInfo) (stack : Addr) : stackPad info stack ≤ 1 := by
  unfold stackPad u64 u32
  dsimp only
  omega

/-- The padding makes up for an odd number of words. -/
theorem stack_aligned {info : DeviceTreeInfo} {top : Addr} {pairs : Nat}
    (hsmall : info.argc + info.envc ≤ STACK_SIZE / 8) (haligned : top.toNat % 8 = 0) :
    (top - BitVec.ofNat 64 (8 * pushedWords info (stackPad info (top - 8)) pairs)).toNat % 16 = 0 := by
  have hbound : STACK_SIZE / 8 = 2048 := by decide
  have hbelow : (top - 8).toNat % 8 = 0 := by bv_omega
  have hhalf : (top - 8).toNat / 8 % 2 = (top.toNat / 8 + 1) % 2 := by bv_omega
  have hpad := stackPad_eq hsmall hbelow
  unfold pushedWords
  generalize stackPad info (top - 8) = pad at *
  generalize (top - 8).toNat = below at *
  have hpad' : pad < 2 := by omega
  rw [BitVec.toNat_sub, BitVec.toNat_ofNat]
  omega

theorem toInt32_of_lt {x : Nat} (h : x < 2147483648) : toInt32 x = (x : Int) := by
  have hx : u32 x = x := u32_of_lt (by omega)
  unfold toInt32
  rw [hx, if_pos h]

/-- The words from the stack pointer up. -/
def startupWords (info : DeviceTreeInfo) (entries : List (BitVec 64 × BitVec 64)) (pad : Nat) :
    List (BitVec 64) :=
  BitVec.ofNat 64 info.argc :: ((List.range info.argc).map info.argv ++
    0 :: ((List.range info.envc).map info.envp ++
      0 :: (pairWords entries ++ (List.replicate pad 0 ++ [0]))))

theorem length_startupWords (info : DeviceTreeInfo) (entries : List (BitVec 64 × BitVec 64)) (pad : Nat) :
    (startupWords info entries pad).length = pushedWords info pad entries.length := by
  simp only [startupWords, pushedWords, List.length_cons, List.length_append, List.length_map,
    List.length_range, List.length_replicate, List.length_nil, length_pairWords]
  omega

section Stack

variable {appStack : Addr} {info : DeviceTreeInfo} (m : Mem) (ehdr : Ehdr) (appAddr : Addr)
  (addrs : AuxAddrs) (aux : AuxEntropy) (ret : EntropyResult)

theorem length_auxEntries (random : Bool) :
    5 ≤ (auxEntries ehdr appAddr addrs random).length ∧
      (auxEntries ehdr appAddr addrs random).length ≤ 6 := by
  cases random <;> simp [auxEntries]

/-- `elf_setup` pushes these words, and then checks the alignment. -/
theorem elfSetupStack_pushed
    (hfits : 8 * pushedWords info (stackPad info (appStack - 8))
      (auxEntries ehdr appAddr addrs (getAuxEntropy aux ret).1).length ≤ STACK_SIZE) :
    ∃ s, Pushed appStack (startupWords info (auxEntries ehdr appAddr addrs (getAuxEntropy aux ret).1)
        (stackPad info (appStack - 8))) s ∧
      elfSetupStack m appStack info ehdr appAddr addrs aux ret =
        (do cassert (s.stack &&& 15 = 0)
            return (ehdr.eEntry + appAddr, s, (getAuxEntropy aux ret).2)) := by
  have hbound : STACK_SIZE / 8 = 2048 := by decide
  have hsize : STACK_SIZE = 16384 := rfl
  have hlength := length_auxEntries ehdr appAddr addrs (getAuxEntropy aux ret).1
  have hpad := stackPad_le info (appStack - 8)
  unfold pushedWords at hfits
  -- the end marker and the padding
  have hempty : Pushed appStack [] ⟨m, appStack⟩ := ⟨trivial, by simp, Nat.zero_le _⟩
  have hpadded := (hempty.fillEntry 0 (by decide)).fillPad (n := stackPad info (appStack - 8))
    (by rw [List.length_singleton]; omega)
  obtain ⟨s₁, haux, hvector⟩ := setupAuxvector_pushed hpadded
    (by rw [List.length_append, List.length_replicate, List.length_singleton]; omega) ehdr appAddr addrs
    aux ret
  generalize auxEntries ehdr appAddr addrs (getAuxEntropy aux ret).1 = entries at *
  have hlen : (pairWords entries ++ (List.replicate (stackPad info (appStack - 8)) 0 ++ [0])).length =
      2 * entries.length + stackPad info (appStack - 8) + 1 := by
    rw [List.length_append, length_pairWords, List.length_append, List.length_replicate,
      List.length_singleton]
    omega
  -- the environment and the arguments
  have henvs := (hvector.fillEntry 0 (by omega)).fillDown info.envp (n := info.envc)
    (by rw [List.length_cons, hlen]; omega)
  have hargs := (henvs.fillEntry 0 (by
    rw [List.length_append, List.length_cons, hlen, List.length_map, List.length_range]
    omega)).fillDown info.argv (n := info.argc) (by
      rw [List.length_cons, List.length_append, List.length_cons, hlen, List.length_map, List.length_range]
      omega)
  have hdone := hargs.fillEntry (BitVec.ofNat 64 info.argc) (by
    rw [List.length_append, List.length_cons, List.length_append, List.length_cons, hlen, List.length_map,
      List.length_range, List.length_map, List.length_range]
    omega)
  refine ⟨_, hdone, ?_⟩
  have hargc : toInt32 info.argc = (info.argc : Int) := toInt32_of_lt (by omega)
  have henvc : toInt32 info.envc = (info.envc : Int) := toInt32_of_lt (by omega)
  have hstack : (fillEntry ⟨m, appStack⟩ 0).stack = appStack - 8 := rfl
  unfold elfSetupStack setupEnvs setupArguments
  simp only [hstack, haux, hargc, henvc, ge_iff_le, Int.natCast_nonneg, decide_true, cassert_true, ok_bind,
    pure_ok, Int.toNat_natCast, BitVec.ofInt_natCast]

theorem getAuxEntropy_fst (aux : AuxEntropy) (ret : EntropyResult) :
    (getAuxEntropy aux ret).1 = decide (ret.error = OK) := rfl

theorem getAuxEntropy_snd (aux : AuxEntropy) (ret : EntropyResult) :
    (getAuxEntropy aux ret).2 = if ret.error = OK then ⟨ret.data0, ret.data1, ret.data2, ret.data3⟩ else aux := rfl

/-- **The stack reads back.** For all arguments and environments, every header, every stack that is aligned to
words and whatever the hypervisor returns, if what is pushed fits, the program finds the arguments, the
environment and the auxiliary vector on it, and the stack pointer is a multiple of 16. The vector has
`AT_RANDOM` exactly when the hypervisor reports success, and it points at the four words of the result. -/
theorem elfSetupStack_startup (haligned : appStack.toNat % 8 = 0)
    (hfits : 8 * pushedWords info (stackPad info (appStack - 8)) (if ret.error = OK then 6 else 5) ≤ STACK_SIZE)
    (henvp : ∀ i < info.envc, info.envp i ≠ 0) :
    ∃ s, elfSetupStack m appStack info ehdr appAddr addrs aux ret =
        .ok (ehdr.eEntry + appAddr, s,
          if ret.error = OK then ⟨ret.data0, ret.data1, ret.data2, ret.data3⟩ else aux) ∧
      s.stack.toNat % 16 = 0 ∧
      ∀ fuel > STACK_SIZE / 8, readStartup s.mem fuel s.stack = some
        { argc := info.argc
          argv := (List.range info.argc).map info.argv
          envp := (List.range info.envc).map info.envp
          auxv := (if ret.error = OK then [(AT_RANDOM, addrs.auxEntropy)] else []) ++
            [(AT_EXECFN, addrs.appName), (AT_PHNUM, ehdr.ePhnum.setWidth 64), (AT_PHENT, sizeofPhdr),
              (AT_PHDR, ehdr.ePhoff + appAddr), (AT_PAGESZ, BitVec.ofNat 64 PAGE_SIZE)] } := by
  have hlen : (auxEntries ehdr appAddr addrs (getAuxEntropy aux ret).1).length =
      if ret.error = OK then 6 else 5 := by
    rw [getAuxEntropy_fst]
    by_cases herror : ret.error = OK <;> simp [auxEntries, herror]
  have hentries : auxEntries ehdr appAddr addrs (getAuxEntropy aux ret).1 =
      (if ret.error = OK then [(AT_RANDOM, addrs.auxEntropy)] else []) ++
        [(AT_EXECFN, addrs.appName), (AT_PHNUM, ehdr.ePhnum.setWidth 64), (AT_PHENT, sizeofPhdr),
          (AT_PHDR, ehdr.ePhoff + appAddr), (AT_PAGESZ, BitVec.ofNat 64 PAGE_SIZE)] := by
    rw [getAuxEntropy_fst]
    simp only [auxEntries, decide_eq_true_eq]
  obtain ⟨s, hpushed, hrun⟩ := elfSetupStack_pushed m ehdr appAddr addrs aux ret (hlen.symm ▸ hfits)
  have hbound : STACK_SIZE / 8 = 2048 := by decide
  have hsize : STACK_SIZE = 16384 := rfl
  have hkeys := auxEntries_keys ehdr appAddr addrs (getAuxEntropy aux ret).1
  have hlength := length_auxEntries ehdr appAddr addrs (getAuxEntropy aux ret).1
  rw [← hlen] at hfits
  rw [← hentries]
  rw [getAuxEntropy_snd] at hrun
  generalize auxEntries ehdr appAddr addrs (getAuxEntropy aux ret).1 = entries at *
  have hsmall : info.argc + info.envc ≤ STACK_SIZE / 8 := by
    unfold pushedWords at hfits
    omega
  have hsp : s.stack.toNat % 16 = 0 := by
    rw [hpushed.stack, length_startupWords]
    exact stack_aligned hsmall haligned
  refine ⟨s, ?_, hsp, fun fuel hfuel => ?_⟩
  · have hmask : s.stack &&& 15 = 0 := by
      apply BitVec.eq_of_toNat_eq
      rw [BitVec.toNat_and]
      exact (Nat.and_two_pow_sub_one_eq_mod s.stack.toNat 4).trans hsp
    rw [hrun, decide_eq_true hmask, cassert_true, ok_bind, pure_ok]
  · have hargc : ((List.range info.argc).map info.argv).length = info.argc := by
      rw [List.length_map, List.length_range]
    have hwords := hpushed.words
    unfold startupWords at hwords
    rw [← List.replicate_succ', List.replicate_succ] at hwords
    have hread := @readStartup_eq s.mem s.stack ((List.range info.argc).map info.argv)
      ((List.range info.envc).map info.envp) _ entries fuel (by rw [hargc]; exact hwords)
      (by rw [hargc]; omega) ?_ hkeys (by rw [List.length_map, List.length_range]; omega)
    · rw [hread, hargc]
    · intro w hw
      obtain ⟨i, hi, rfl⟩ := List.mem_map.1 hw
      exact henvp i (List.mem_range.1 hi)

end Stack

/-- Two arguments, one variable, and a hypervisor that has entropy. -/
theorem elfSetupStack_startup_random : ∃ s,
    elfSetupStack (fun _ => 0) 65536 ⟨2, fun i => 8192 + 8 * i, 1, fun _ => 8208⟩ ⟨4096, 64, 2⟩ 1048576
      ⟨12288, 12304⟩ ⟨0, 0, 0, 0⟩ ⟨0, 11, 12, 13, 14⟩ = .ok (1052672, s, ⟨11, 12, 13, 14⟩) ∧
    s.stack.toNat % 16 = 0 ∧
    readStartup s.mem 4096 s.stack = some ⟨2, [8192, 8200], [8208],
      [(AT_RANDOM, 12304), (AT_EXECFN, 12288), (AT_PHNUM, 2), (AT_PHENT, 56), (AT_PHDR, 1048640),
        (AT_PAGESZ, 4096)]⟩ := by
  obtain ⟨s, hrun, hsp, hread⟩ := @elfSetupStack_startup 65536 ⟨2, fun i => 8192 + 8 * i, 1, fun _ => 8208⟩
    (fun _ => 0) ⟨4096, 64, 2⟩ 1048576 ⟨12288, 12304⟩ ⟨0, 0, 0, 0⟩ ⟨0, 11, 12, 13, 14⟩ (by decide) (by decide)
    (by decide)
  exact ⟨s, hrun, hsp, hread 4096 (by decide)⟩

end GunyahRuntime
