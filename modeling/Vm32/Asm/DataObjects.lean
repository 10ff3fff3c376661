/-
# Programs on strings and arrays

The instructions on memory take addresses from registers and know no types.  A program may still
keep to strings and arrays of its own, each in its own region of memory: every instruction that
writes memory then has such an object as its target, and what it leaves there fits.  Memory is
then of no concern: the instructions are statements on the values of the objects, and `LEN`, `MUX`
and `SEL` read what the last statements have stored.
-/
import Vm32.Asm.StraightLine
import Vm32.Lib.Regions
import Vm32.Vm.StringSplice

namespace Vm32

open BoundedString LabelledRun Regions

/-- A step that calls a handler finds it in the opcode table. -/
lemma opEx_of_outcome {c : Config} {e : Env} {pc instr raw : UInt32}
    (hout : outcome vmDecodeInstruction c e = some (.executed pc instr raw)) :
    ∃ op, opEx (opc instr) = some op := by
  obtain ⟨vm, ctl⟩ := c
  cases ctl with
  | instr idx mod count startMs =>
    simp only [outcome] at hout
    split_ifs at hout
    obtain ⟨op, -, hop, -⟩ := runInstruction_executed (Option.some.inj hout)
    exact ⟨op, hop⟩
  | _ => cases hout

/-! ### Objects and statements -/

/-- The value of an object: a string or the words of an array. -/
inductive DataValue
  | text (s : List UInt8)
  | words (ws : List UInt32)
deriving DecidableEq, Repr

/-- Where the objects are, and the object that starts at an address. -/
structure DataLayout (ρ : Type*) extends Regions.Layout ρ where
  within : ∀ r, start r + size r ≤ vmMemBytes
  objectAt : ℕ → Option ρ
  start_of_objectAt : ∀ {a r}, objectAt a = some r → start r = a

/-- The statements that the instructions on memory stand for. -/
inductive DataStatement (ρ : Type*)
  | concat (d s : ρ)
  | left (d : ρ) (n : ℕ)
  | right (d : ρ) (n : ℕ)
  | mid (d : ρ) (n : ℕ)
  | insert (d s : ρ) (pos : ℕ)
  | delete (d : ρ) (pos n : ℕ)
  | replace (d s : ρ) (pos : ℕ)
  | store (d : ρ) (k : ℕ) (v : UInt32)
deriving DecidableEq, Repr

/-- What `LEN`, `MUX` and `SEL` ask for. -/
inductive DataQuery (ρ : Type*)
  | length (r : ρ)
  | element (r : ρ) (k : ℕ)
deriving DecidableEq, Repr

namespace DataLayout

variable {ρ : Type*} (L : DataLayout ρ)

/-- The new value of the target of a statement, if the objects have the right types. -/
def value [DecidableEq ρ] (σ : ρ → DataValue) : DataStatement ρ → Option (ρ × DataValue)
  | .concat d s =>
    match σ d, σ s with
    | .text x, .text y => some (d, .text (x ++ y))
    | _, _ => none
  | .left d n =>
    match σ d with
    | .text x => some (d, .text (x.take n))
    | _ => none
  | .right d n =>
    match σ d with
    | .text x => some (d, .text (x.rtake n))
    | _ => none
  | .mid d n =>
    match σ d with
    | .text x => some (d, .text (x.drop n))
    | _ => none
  | .insert d s pos =>
    match σ d, σ s with
    | .text x, .text y =>
      if d = s then none else some (d, .text (x.take pos ++ y ++ x.drop pos))
    | _, _ => none
  | .delete d pos n =>
    match σ d with
    | .text x => some (d, .text (x.take pos ++ x.drop (pos + n)))
    | _ => none
  | .replace d s pos =>
    match σ d, σ s with
    | .text x, .text y =>
      if d = s then none
      else
        let k := min y.length (x.length - pos)
        some (d, .text (x.take pos ++ y.take k ++ x.drop (pos + k)))
    | _, _ => none
  | .store d k v =>
    match σ d with
    | .words ws => if k < ws.length then some (d, .words (ws.set k v)) else none
    | _ => none

/-- The object has room for the value: a string needs a terminator. -/
def Fits (r : ρ) : DataValue → Prop
  | .text s => s.length < L.size r
  | .words ws => 4 * ws.length ≤ L.size r

instance (r : ρ) : DecidablePred (L.Fits r)
  | .text s => inferInstanceAs (Decidable (s.length < L.size r))
  | .words ws => inferInstanceAs (Decidable (4 * ws.length ≤ L.size r))

/-- A statement, if it is well-typed and its result fits. -/
def exec [DecidableEq ρ] (σ : ρ → DataValue) (stmt : DataStatement ρ) : Option (ρ → DataValue) :=
  (value σ stmt).bind fun x => if L.Fits x.1 x.2 then some (Function.update σ x.1 x.2) else none

/-- The answer to a query. -/
def answer (σ : ρ → DataValue) : DataQuery ρ → Option UInt32
  | .length r =>
    match σ r with
    | .text s => some (UInt32.ofNat s.length)
    | _ => none
  | .element r k =>
    match σ r with
    | .words ws => ws[k]?
    | _ => none

/-! ### What the instructions stand for -/

/-- The object whose address is in the register. -/
def objectIn (vm : VmState) (r : UInt8) : Option ρ := L.objectAt (vm.reg r).toNat

/-- The statement of an instruction on memory, if it names objects. -/
def statementOf (vm : VmState) (opcode : UInt8) (i : UInt32) : Option (DataStatement ρ) :=
  match opcode.toNat with
  | 40 => do some (.concat (← L.objectIn vm (rb i)) (← L.objectIn vm (rc i)))
  | 41 => do some (.left (← L.objectIn vm (rb i)) (cvOrImm vm i).toNat)
  | 42 => do some (.right (← L.objectIn vm (rb i)) (cvOrImm vm i).toNat)
  | 43 => do some (.mid (← L.objectIn vm (rb i)) (cvOrImm vm i).toNat)
  | 44 => do
    some (.insert (← L.objectIn vm (ra i)) (← L.objectIn vm (rb i)) (cvOrImm vm i).toNat)
  | 45 => do some (.delete (← L.objectIn vm (ra i)) (bv vm i).toNat (cvOrImm vm i).toNat)
  | 46 => do
    some (.replace (← L.objectIn vm (ra i)) (← L.objectIn vm (rb i)) (cvOrImm vm i).toNat)
  | 61 => do some (.store (← L.objectIn vm (rb i)) (cvOrImm vm i).toNat (vm.reg (ra i)))
  | _ => none

/-- The instruction writes memory. -/
def writesMemory (opcode : UInt8) : Bool := opcode.toNat ∈ [40, 41, 42, 43, 44, 45, 46, 61]

/-- The query of `LEN`, `SEL` and `MUX`, if it names an object. -/
def queryOf (vm : VmState) (opcode : UInt8) (i : UInt32) : Option (DataQuery ρ) :=
  match opcode.toNat with
  | 39 => do some (.length (← L.objectIn vm (rb i)))
  | 54 => do some (.element (← L.objectIn vm (rc i)) (if bv vm i != 0 then 0 else 1))
  | 55 => do some (.element (← L.objectIn vm (rb i)) (cvOrImm vm i).toNat)
  | _ => none

/-- The statement of a step that executes an instruction that writes memory. -/
def statement (c : Config) (e : Env) : Option (Option (DataStatement ρ)) :=
  match outcome vmDecodeInstruction c e with
  | some (.executed _ instr raw) =>
    if writesMemory (opc instr) then some (L.statementOf c.vm (opc instr) raw) else none
  | _ => none

/-- The query of a step, with the register that gets the answer. -/
def query (c : Config) (e : Env) : Option (UInt8 × DataQuery ρ) :=
  match outcome vmDecodeInstruction c e with
  | some (.executed _ instr raw) => (L.queryOf c.vm (opc instr) raw).map fun q => (ra raw, q)
  | _ => none

/-! ### How values are stored -/

/-- The region of an object holds a value. -/
def Holds (r : ρ) (v : DataValue) (mem : ℕ → UInt8) : Prop :=
  match v with
  | .text s => str vmMemBytes mem (L.start r) = s ∧ s.length < L.size r
  | .words ws => 4 * ws.length ≤ L.size r ∧
      ∀ k (hk : k < ws.length), window mem (L.start r + 4 * k) 4 = wordBytes ws[k]

variable {L} {r : ρ} {v : DataValue} {mem mem' : ℕ → UInt8}

lemma str_congr {a : ℕ} (hend : a + (str vmMemBytes mem a).length < vmMemBytes)
    (hmem : ∀ b, a ≤ b → b ≤ a + (str vmMemBytes mem a).length → mem' b = mem b) :
    str vmMemBytes mem' a = str vmMemBytes mem a := by
  refine str_eq_of_window (n := (str vmMemBytes mem a).length) ?_ (zero_not_mem_str _ _ _)
    (Nat.le_of_lt hend) ?_
  · rw [window_congr fun b hb hlt => hmem b hb hlt.le, window_str]
  · intro _
    rw [hmem _ (Nat.le_add_right _ _) le_rfl]
    exact end_str hend

lemma Holds.congr (h : L.Holds r v mem) (hmem : ∀ a, L.Mem r a → mem' a = mem a) :
    L.Holds r v mem' := by
  have hwithin := L.within r
  cases v with
  | text s =>
    obtain ⟨rfl, hlen⟩ := h
    refine ⟨str_congr (by omega) fun b hb hle => hmem b ⟨hb, by omega⟩, hlen⟩
  | words ws =>
    refine ⟨h.1, fun k hk => ?_⟩
    have hsize := h.1
    rw [← h.2 k hk]
    exact window_congr fun b hb hlt => hmem b ⟨by omega, by omega⟩

variable (L) in
/-- The representation of strings and arrays in memory. -/
def values : Representation L.toLayout UInt8 DataValue := ⟨L.Holds, Holds.congr⟩

variable (L) in
/-- The step stores a value in an object and writes nowhere else. -/
structure Stores (vm vm' : VmState) (r : ρ) (v : DataValue) : Prop where
  holds : L.Holds r v vm'.mem
  frame : ∀ a, ¬L.Mem r a → vm'.mem a = vm.mem a

section Statements

variable {σ σ' : ρ → DataValue} {vm vm' : VmState} {i : UInt32} {d s : ρ} {x y : List UInt8}
  {n pos k : ℕ} (h : Host)

lemma Holds.text (hd : L.Holds d (.text x) vm.mem) :
    strAt vm (L.start d) = x ∧ x.length < L.size d ∧ L.start d + x.length < vmMemBytes := by
  have hwithin := L.within d
  have hlen := hd.2
  exact ⟨hd.1, hlen, by omega⟩

lemma Stores.of_rewrites {lo hi : ℕ} (hr : Rewrites vm vm' (L.start d) x lo hi)
    (hlo : L.start d ≤ lo) (hhi : hi < L.start d + L.size d) (hfit : x.length < L.size d) :
    L.Stores vm vm' d (.text x) := by
  refine ⟨⟨hr.str, hfit⟩, fun a ha => hr.frame a ?_⟩
  rw [Layout.Mem, not_and_or, not_le, not_lt] at ha
  omega

lemma stores_concat (hd : L.Holds d (.text x) vm.mem) (hs : L.Holds s (.text y) vm.mem)
    (ha : (bv vm i).toNat = L.start d) (hb : (cv vm i).toNat = L.start s)
    (hfit : (x ++ y).length < L.size d) :
    L.Stores vm (opConcat h vm i) d (.text (x ++ y)) := by
  obtain ⟨rfl, -, hdend⟩ := hd.text
  obtain ⟨rfl, -, hsend⟩ := hs.text
  rw [List.length_append] at hfit
  have hwithin := L.within d
  have hk : min (strAt vm (L.start s)).length (space vm (L.start d)) =
      (strAt vm (L.start s)).length := by
    rw [space]
    omega
  have hr := rewrites_opConcat h ha hb hk (by omega) (by omega)
  rw [List.take_length] at hr
  exact .of_rewrites hr (Nat.le_add_right _ _) (by omega) (by rwa [List.length_append])

lemma stores_left (hd : L.Holds d (.text x) vm.mem) (ha : (bv vm i).toNat = L.start d)
    (hn : (cvOrImm vm i).toNat = n) : L.Stores vm (opLeft h vm i) d (.text (x.take n)) := by
  obtain ⟨rfl, hlen, hend⟩ := hd.text
  refine .of_rewrites (rewrites_opLeft h ha hn (by omega)) le_rfl (by omega) ?_
  exact lt_of_le_of_lt (List.length_take_le' _ _) hlen

lemma stores_right (hd : L.Holds d (.text x) vm.mem) (ha : (bv vm i).toNat = L.start d)
    (hn : (cvOrImm vm i).toNat = n) : L.Stores vm (opRight h vm i) d (.text (x.rtake n)) := by
  obtain ⟨rfl, hlen, hend⟩ := hd.text
  refine .of_rewrites (rewrites_opRight h ha hn (by omega)) le_rfl (by omega) ?_
  rw [List.rtake, List.length_drop]
  omega

lemma stores_mid (hd : L.Holds d (.text x) vm.mem) (ha : (bv vm i).toNat = L.start d)
    (hn : (cvOrImm vm i).toNat = n) : L.Stores vm (opMid h vm i) d (.text (x.drop n)) := by
  obtain ⟨rfl, hlen, hend⟩ := hd.text
  refine .of_rewrites (rewrites_opMid h ha hn (by omega)) le_rfl (by omega) ?_
  rw [List.length_drop]
  omega

lemma stores_insert (hne : d ≠ s) (hd : L.Holds d (.text x) vm.mem)
    (hs : L.Holds s (.text y) vm.mem) (ha : (vm.reg (ra i)).toNat = L.start d)
    (hb : (bv vm i).toNat = L.start s) (hp : (cvOrImm vm i).toNat = pos)
    (hfit : (x.take pos ++ y ++ x.drop pos).length < L.size d) :
    L.Stores vm (opInsert h vm i) d (.text (x.take pos ++ y ++ x.drop pos)) := by
  obtain ⟨rfl, -, hdend⟩ := hd.text
  obtain ⟨rfl, hslen, hsend⟩ := hs.text
  have hwithin := L.within d
  have hlen : (strAt vm (L.start d)).length + (strAt vm (L.start s)).length < L.size d := by
    simp only [List.length_append, List.length_take, List.length_drop] at hfit
    omega
  have hk : min (strAt vm (L.start s)).length (space vm (L.start d)) =
      (strAt vm (L.start s)).length := by
    rw [space]
    omega
  have hcut : ∀ z : List UInt8, z.take (min pos z.length) = z.take pos ∧
      z.drop (min pos z.length) = z.drop pos := by
    intro z
    rcases le_total pos z.length with hle | hle
    · rw [min_eq_left hle]
      exact ⟨rfl, rfl⟩
    · rw [min_eq_right hle, List.take_length, List.drop_length, List.take_of_length_le hle,
        List.drop_eq_nil_of_le hle]
      exact ⟨rfl, rfl⟩
  have hr := rewrites_opInsert h ha hb (congrArg (min · _) hp) hk (by omega) (by omega) ?_
  · rw [List.take_length, (hcut _).1, (hcut _).2] at hr
    exact .of_rewrites hr (Nat.le_add_right _ _) (by omega) hfit
  · -- the source is another object
    rintro j hj ⟨hle, hge⟩
    rcases L.apart d s hne with hapart | hapart <;> omega

lemma stores_delete (hd : L.Holds d (.text x) vm.mem) (ha : (vm.reg (ra i)).toNat = L.start d)
    (hp : (bv vm i).toNat = pos) (hn : (cvOrImm vm i).toNat = n) :
    L.Stores vm (opDelete h vm i) d (.text (x.take pos ++ x.drop (pos + n))) := by
  obtain ⟨rfl, hlen, hend⟩ := hd.text
  refine .of_rewrites (rewrites_opDelete h ha hp hn (by omega) (Or.inl hend))
    (Nat.le_add_right _ _) (by omega) ?_
  rw [List.length_append, List.length_take, List.length_drop]
  omega

lemma stores_replace (hne : d ≠ s) (hd : L.Holds d (.text x) vm.mem)
    (hs : L.Holds s (.text y) vm.mem) (ha : (vm.reg (ra i)).toNat = L.start d)
    (hb : (bv vm i).toNat = L.start s) (hp : (cvOrImm vm i).toNat = pos)
    (hk : min y.length (x.length - pos) = k) :
    L.Stores vm (opReplace h vm i) d (.text (x.take pos ++ y.take k ++ x.drop (pos + k))) := by
  obtain ⟨rfl, hdlen, hdend⟩ := hd.text
  obtain ⟨rfl, hslen, hsend⟩ := hs.text
  rcases Nat.lt_or_ge (strAt vm (L.start d)).length pos with hlt | hle
  · -- behind the end of the string nothing is done
    have hzero : k = 0 := by omega
    have hsame : opReplace h vm i = vm := by
      simp only [opReplace, safeStrlenAt_eq, ha, hp, if_pos hlt, ite_self]
    rw [hsame, hzero, List.take_zero, List.append_nil, Nat.add_zero, List.take_append_drop]
    exact ⟨hd, fun a _ => rfl⟩
  · have hapart : L.start s + k ≤ L.start d + pos ∨ L.start d + pos + k ≤ L.start s := by
      rcases L.apart d s hne with hapart | hapart <;> omega
    have hstr := strAt_opReplace h ha hb hp hk hdend (by omega) hle hapart
    have hmem := mem_opReplace_eq_overlay h ha hb hp hk hdend (by omega) hle hapart
    refine ⟨⟨hstr, ?_⟩, fun a hout => ?_⟩
    · simp only [List.length_append, List.length_take, List.length_drop]
      omega
    · rw [hmem, overlay_of_not_mem]
      rw [List.length_take]
      rintro ⟨hge, hlt⟩
      exact hout ⟨by omega, by omega⟩

/-- A word that is written inside memory. -/
lemma mem_vmMw32 {addr : UInt32} (haddr : addr.toNat + 4 ≤ vmMemBytes) (w : UInt32) :
    (vmMw32 vm addr w).mem = overlay vm.mem addr.toNat (wordBytes w) := by
  have h₁ : (addr + 1).toNat = addr.toNat + 1 := toNat_add_of_le (n := 1) (by simp; omega)
  have h₂ : (addr + 2).toNat = addr.toNat + 2 := toNat_add_of_le (n := 2) (by simp; omega)
  have h₃ : (addr + 3).toNat = addr.toNat + 3 := toNat_add_of_le (n := 3) (by simp; omega)
  have hbyte : ∀ x : UInt32, (x &&& 0xFF).toUInt8 = x.toUInt8 := by
    intro x
    rw [← UInt8.toNat_inj]
    exact (toNat_rc x).trans (by simp)
  funext a
  by_cases ha : addr.toNat ≤ a ∧ a < addr.toNat + 4
  · obtain ⟨j, rfl⟩ := Nat.exists_eq_add_of_le ha.1
    have hj : j < (wordBytes w).length := by
      rw [length_wordBytes]
      omega
    rw [overlay_getElem _ _ _ hj]
    have hj' : j < 4 := hj
    interval_cases j <;>
      simp [vmMw32, vmMw8, h₁, h₂, h₃, wordBytes, hbyte]
  · rw [overlay_of_not_mem _ ha]
    simp only [vmMw32, vmMw8, h₁, h₂, h₃]
    rw [Function.update_of_ne (by omega), Function.update_of_ne (by omega),
      Function.update_of_ne (by omega), Function.update_of_ne (by omega)]

/-- The address of an element. -/
lemma elementAddress {base idx : UInt32} (hin : base.toNat + 4 * idx.toNat + 4 ≤ vmMemBytes) :
    ¬vmMemBytes < (base.toUInt64 + idx.toUInt64 * 4 + 4).toNat ∧
      (base.toUInt64 + idx.toUInt64 * 4).toUInt32.toNat = base.toNat + 4 * idx.toNat := by
  have hbase := base.toNat_lt
  have hidx := idx.toNat_lt
  simp only [UInt64.toNat_add, UInt64.toNat_mul, UInt32.toNat_toUInt64, UInt64.toNat_toUInt32,
    UInt64.reduceToNat, vmMemBytes] at hin ⊢
  omega

variable {ws : List UInt32}

/-- An element is read where the array holds it. -/
lemma Holds.read (hd : L.Holds d (.words ws) vm.mem) (hk : k < ws.length) {addr : UInt32}
    (haddr : addr.toNat = L.start d + 4 * k) : vmMr32 vm addr = ws[k] := by
  have hwithin := L.within d
  have hsize := hd.1
  refine vmMr32_of_wordBytes (by omega) fun j hj => ?_
  have hj' : j < (window vm.mem (L.start d + 4 * k) 4).length := by
    rw [length_window]
    exact hj
  rw [haddr, ← List.getElem_of_eq (hd.2 k hk) hj']
  simp [window]

lemma stores_store (hd : L.Holds d (.words ws) vm.mem) (ha : (bv vm i).toNat = L.start d)
    (hn : (cvOrImm vm i).toNat = k) (hk : k < ws.length) :
    L.Stores vm (opDemux h vm i) d (.words (ws.set k (vm.reg (ra i)))) := by
  subst hn
  have hwithin := L.within d
  have hsize := hd.1
  obtain ⟨hin, haddr⟩ := @elementAddress (bv vm i) (cvOrImm vm i) (by omega)
  have hmem : (opDemux h vm i).mem = overlay vm.mem (L.start d + 4 * (cvOrImm vm i).toNat)
      (wordBytes (vm.reg (ra i))) := by
    simp only [opDemux, if_neg hin]
    rw [mem_vmMw32 (by omega), haddr, ha]
  refine ⟨⟨by rwa [List.length_set], fun j hj => ?_⟩, fun a hout => ?_⟩
  · rw [List.length_set] at hj
    rw [hmem]
    rcases eq_or_ne j (cvOrImm vm i).toNat with rfl | hne
    · rw [List.getElem_set_self]
      exact memBytes_overlay vm.mem _ (wordBytes (vm.reg (ra i)))
    · rw [List.getElem_set_ne hne.symm, ← hd.2 j hj]
      refine window_congr fun b hb hlt => overlay_of_not_mem _ ?_
      rw [length_wordBytes]
      omega
  · rw [hmem, overlay_of_not_mem]
    rw [length_wordBytes]
    rintro ⟨hge, hlt⟩
    exact hout ⟨by omega, by omega⟩

/-! ### Steps -/

lemma objectIn_eq_some {b : UInt8} (hb : L.objectIn vm b = some d) :
    (vm.reg b).toNat = L.start d := (L.start_of_objectAt hb).symm

variable {stmt : DataStatement ρ} {q : DataQuery ρ} {opcode : UInt8} {op : OpEx}

/-- The handler of an instruction carries out the statement that the instruction stands for. -/
lemma stores_statement [DecidableEq ρ] (hR : L.values.Represents σ vm.mem)
    (hstmt : L.statementOf vm opcode i = some stmt) (hop : opEx opcode = some op)
    (hvalue : value σ stmt = some (r, v)) (hfit : L.Fits r v) : L.Stores vm (op h vm i) r v := by
  have hget : defaultOpEx[opcode.toNat]? = some op := hop
  have htext : ∀ {d x}, σ d = .text x → L.Holds d (.text x) vm.mem := fun hd => hd ▸ hR _
  have hwords : ∀ {d ws}, σ d = .words ws → L.Holds d (.words ws) vm.mem := fun hd => hd ▸ hR _
  rw [statementOf] at hstmt
  split at hstmt
  all_goals try rename_i hcode
  all_goals try rw [hcode] at hget
  all_goals try obtain rfl := Option.some.inj hget
  all_goals simp only [bind, Option.bind_eq_some_iff, Option.some.injEq, reduceCtorEq] at hstmt
  · obtain ⟨d, hd, s, hs, rfl⟩ := hstmt
    simp only [value] at hvalue
    split at hvalue
    · rename_i x y hx hy
      obtain ⟨rfl, rfl⟩ := Prod.mk.inj (Option.some.inj hvalue)
      exact stores_concat h (htext hx) (htext hy) (objectIn_eq_some hd) (objectIn_eq_some hs) hfit
    · cases hvalue
  · obtain ⟨d, hd, rfl⟩ := hstmt
    simp only [value] at hvalue
    split at hvalue
    · rename_i x hx
      obtain ⟨rfl, rfl⟩ := Prod.mk.inj (Option.some.inj hvalue)
      exact stores_left h (htext hx) (objectIn_eq_some hd) rfl
    · cases hvalue
  · obtain ⟨d, hd, rfl⟩ := hstmt
    simp only [value] at hvalue
    split at hvalue
    · rename_i x hx
      obtain ⟨rfl, rfl⟩ := Prod.mk.inj (Option.some.inj hvalue)
      exact stores_right h (htext hx) (objectIn_eq_some hd) rfl
    · cases hvalue
  · obtain ⟨d, hd, rfl⟩ := hstmt
    simp only [value] at hvalue
    split at hvalue
    · rename_i x hx
      obtain ⟨rfl, rfl⟩ := Prod.mk.inj (Option.some.inj hvalue)
      exact stores_mid h (htext hx) (objectIn_eq_some hd) rfl
    · cases hvalue
  · obtain ⟨d, hd, s, hs, rfl⟩ := hstmt
    simp only [value] at hvalue
    split at hvalue
    · rename_i x y hx hy
      split_ifs at hvalue with hne
      obtain ⟨rfl, rfl⟩ := Prod.mk.inj (Option.some.inj hvalue)
      exact stores_insert h hne (htext hx) (htext hy) (objectIn_eq_some hd) (objectIn_eq_some hs)
        rfl hfit
    · cases hvalue
  · obtain ⟨d, hd, rfl⟩ := hstmt
    simp only [value] at hvalue
    split at hvalue
    · rename_i x hx
      obtain ⟨rfl, rfl⟩ := Prod.mk.inj (Option.some.inj hvalue)
      exact stores_delete h (htext hx) (objectIn_eq_some hd) rfl rfl
    · cases hvalue
  · obtain ⟨d, hd, s, hs, rfl⟩ := hstmt
    simp only [value] at hvalue
    split at hvalue
    · rename_i x y hx hy
      split_ifs at hvalue with hne
      obtain ⟨rfl, rfl⟩ := Prod.mk.inj (Option.some.inj hvalue)
      exact stores_replace h hne (htext hx) (htext hy) (objectIn_eq_some hd) (objectIn_eq_some hs)
        rfl rfl
    · cases hvalue
  · obtain ⟨d, hd, rfl⟩ := hstmt
    simp only [value] at hvalue
    split at hvalue
    · rename_i ws hx
      split_ifs at hvalue with hk
      obtain ⟨rfl, rfl⟩ := Prod.mk.inj (Option.some.inj hvalue)
      exact stores_store h (hwords hx) (objectIn_eq_some hd) rfl hk
    · cases hvalue

/-- The other handlers write no memory. -/
lemma keeps_mem_of_not_writes (hop : opEx opcode = some op) (hread : writesMemory opcode = false) :
    Keeps VmState.mem op := by
  refine keeps_mem_of_get (n := opcode.toNat) hop ?_
  simpa [writesMemory] using hread

/-- `LEN` counts the letters of a text. -/
lemma reg_opLen (hd : L.Holds d (.text x) vm.mem) (hb : (bv vm i).toNat = L.start d) :
    (opLen h vm i).reg (ra i) = UInt32.ofNat x.length := by
  obtain ⟨hstr, -, hend⟩ := hd.text
  have hmem : L.start d < vmMemBytes := by omega
  simp only [opLen, safeStrlenAt_eq, hb, if_neg (not_le.2 hmem), setAVal, Function.update_self]
  rw [hstr]

/-- `SEL` reads one of the first two words. -/
lemma reg_opSel (hd : L.Holds d (.words ws) vm.mem) (hc : (vm.reg (rc i)).toNat = L.start d)
    {w : UInt32} (hw : ws[if (bv vm i != 0) = true then 0 else 1]? = some w) :
    (opSel h vm i).reg (ra i) = w := by
  have hwithin := L.within d
  have hsize := hd.1
  have hbase : ws ≠ [] → ¬vmMemBytes ≤ (vm.reg (rc i)).toNat := by
    intro hne
    have := List.length_pos_of_ne_nil hne
    omega
  by_cases hcond : (bv vm i != 0) = true
  · rw [if_pos hcond] at hw
    obtain ⟨hk, rfl⟩ := List.getElem?_eq_some_iff.1 hw
    have h₄ : (vm.reg (rc i) + 4).toNat = (vm.reg (rc i)).toNat + 4 :=
      toNat_add_of_le (n := 4) (by simp; omega)
    have hfits : (vm.reg (rc i) + 4).toNat ≤ vmMemBytes := by omega
    simp only [opSel, if_neg (hbase (List.ne_nil_of_length_pos hk)), if_pos hcond, if_pos hfits,
      setAVal, Function.update_self]
    exact hd.read hk (by omega)
  · rw [if_neg hcond] at hw
    obtain ⟨hk, rfl⟩ := List.getElem?_eq_some_iff.1 hw
    have h₄ : (vm.reg (rc i) + 4).toNat = (vm.reg (rc i)).toNat + 4 :=
      toNat_add_of_le (n := 4) (by simp; omega)
    have h₈ : (vm.reg (rc i) + 8).toNat = (vm.reg (rc i)).toNat + 8 :=
      toNat_add_of_le (n := 8) (by simp; omega)
    have hfits : (vm.reg (rc i) + 8).toNat ≤ vmMemBytes := by omega
    simp only [opSel, if_neg (hbase (List.ne_nil_of_length_pos (by omega))), if_neg hcond,
      if_pos hfits, setAVal, Function.update_self]
    exact hd.read hk (by omega)

/-- `MUX` reads the word with the number. -/
lemma reg_opMux (hd : L.Holds d (.words ws) vm.mem) (hb : (bv vm i).toNat = L.start d)
    {w : UInt32} (hw : ws[(cvOrImm vm i).toNat]? = some w) : (opMux h vm i).reg (ra i) = w := by
  obtain ⟨hk, rfl⟩ := List.getElem?_eq_some_iff.1 hw
  have hwithin := L.within d
  have hsize := hd.1
  obtain ⟨hin, haddr⟩ := @elementAddress (bv vm i) (cvOrImm vm i) (by omega)
  simp only [opMux, if_neg hin, setAVal, Function.update_self]
  exact hd.read hk (by rw [haddr, hb])

/-- The answer to a query is what the instruction leaves in register A. -/
lemma reg_of_query (hR : L.values.Represents σ vm.mem) (hq : L.queryOf vm opcode i = some q)
    (hop : opEx opcode = some op) {w : UInt32} (hw : answer σ q = some w) :
    (op h vm i).reg (ra i) = w := by
  have hget : defaultOpEx[opcode.toNat]? = some op := hop
  have htext : ∀ {d x}, σ d = .text x → L.Holds d (.text x) vm.mem := fun hd => hd ▸ hR _
  have hwords : ∀ {d ws}, σ d = .words ws → L.Holds d (.words ws) vm.mem := fun hd => hd ▸ hR _
  rw [queryOf] at hq
  split at hq
  all_goals try rename_i hcode
  all_goals try rw [hcode] at hget
  all_goals try obtain rfl := Option.some.inj hget
  all_goals simp only [bind, Option.bind_eq_some_iff, Option.some.injEq, reduceCtorEq] at hq
  · obtain ⟨d, hd, rfl⟩ := hq
    simp only [answer] at hw
    split at hw
    · rename_i x hx
      rw [reg_opLen h (htext hx) (objectIn_eq_some hd)]
      exact Option.some.inj hw
    · cases hw
  · obtain ⟨d, hd, rfl⟩ := hq
    simp only [answer] at hw
    split at hw
    · rename_i ws hx
      exact reg_opSel h (hwords hx) (objectIn_eq_some hd) hw
    · cases hw
  · obtain ⟨d, hd, rfl⟩ := hq
    simp only [answer] at hw
    split at hw
    · rename_i ws hx
      exact reg_opMux h (hwords hx) (objectIn_eq_some hd) hw
    · cases hw

end Statements

/-! ### Runs -/

section Runs

variable {σ σ' : ρ → DataValue} {c : Config} {e : Env}

/-- The statements of a run, one behind the other. -/
def execAll [DecidableEq ρ] (σ : ρ → DataValue) (stmts : List (DataStatement ρ)) :
    Option (ρ → DataValue) :=
  stmts.foldlM L.exec σ

lemma statement_eq_some {x : Option (DataStatement ρ)} (hx : L.statement c e = some x) :
    ∃ pc instr raw op, outcome vmDecodeInstruction c e = some (.executed pc instr raw) ∧
      opEx (opc instr) = some op ∧ L.statementOf c.vm (opc instr) raw = x := by
  rw [statement] at hx
  split at hx
  · rename_i pc instr raw hout
    split_ifs at hx
    obtain ⟨op, hop⟩ := opEx_of_outcome hout
    exact ⟨pc, instr, raw, op, hout, hop, Option.some.inj hx⟩
  · cases hx

/-- A step without a statement leaves memory alone. -/
lemma step_mem_of_none (hquiet : NoReload c e) (hnone : L.statement c e = none) :
    (step vmDecodeInstruction c e).vm.mem = c.vm.mem := by
  obtain ⟨vm, ctl⟩ := c
  cases ctl with
  | instr idx mod count startMs =>
    rw [statement] at hnone
    simp only [outcome, step] at hnone ⊢
    split_ifs at hnone ⊢
    · refine runInstruction_keeps (f := VmState.mem) (fun _ _ _ _ _ _ => rfl) ?_
      intro pc instr raw op hout hop vm
      rw [hout] at hnone
      refine keeps_mem_of_not_writes hop ?_ e.host vm raw
      by_contra hwrites
      rw [Bool.not_eq_false] at hwrites
      simp [hwrites] at hnone
    · rfl
  | _ => exact (step_leaves_programs hquiet (by simp) vmDecodeInstruction).1

/-- A step with a statement carries it out. -/
lemma step_stores [DecidableEq ρ] (hR : L.values.Represents σ c.vm.mem)
    {stmt : DataStatement ρ} (hstmt : L.statement c e = some (some stmt))
    (hexec : L.exec σ stmt = some σ') :
    L.values.Represents σ' (step vmDecodeInstruction c e).vm.mem ∧
      ∀ a, (∀ r, ¬L.Mem r a) → (step vmDecodeInstruction c e).vm.mem a = c.vm.mem a := by
  obtain ⟨pc, instr, raw, op, hout, hop, hstmt⟩ := statement_eq_some hstmt
  obtain ⟨⟨r, v⟩, hvalue, hfit⟩ := Option.bind_eq_some_iff.1 hexec
  split_ifs at hfit with hfits
  obtain rfl := Option.some.inj hfit
  have hoff : OffCall VmState.mem := fun _ _ _ _ _ _ => rfl
  have hstores := stores_statement e.host hR hstmt hop hvalue hfits
  rw [hoff.step_executed hout hop]
  exact ⟨hR.update hstores.holds hstores.frame, fun a ha => hstores.frame a (ha r)⟩

/-- The statements of a run are carried out one after the other. -/
lemma run_stores [DecidableEq ρ] {es : List Env} {stmts : List (DataStatement ρ)}
    (hR : L.values.Represents σ c.vm.mem)
    (hquiet : Along (step vmDecodeInstruction) NoReload c es)
    (htrace : trace (step vmDecodeInstruction) L.statement c es = stmts.map some)
    (hexec : L.execAll σ stmts = some σ') :
    L.values.Represents σ' (run (step vmDecodeInstruction) c es).vm.mem ∧
      ∀ a, (∀ r, ¬L.Mem r a) → (run (step vmDecodeInstruction) c es).vm.mem a = c.vm.mem a := by
  induction es generalizing c σ stmts with
  | nil =>
    obtain rfl : stmts = [] := by simpa using htrace.symm
    obtain rfl := Option.some.inj hexec
    exact ⟨hR, fun a _ => rfl⟩
  | cons e es ih =>
    rw [along_cons] at hquiet
    rw [trace_cons] at htrace
    rw [run_cons]
    cases hstep : L.statement c e with
    | none =>
      have hmem := step_mem_of_none hquiet.1 hstep
      rw [hstep] at htrace
      have hnext := ih (hR.congr fun a => congrFun hmem a) hquiet.2 htrace hexec
      rwa [hmem] at hnext
    | some x =>
      rw [hstep] at htrace
      cases stmts with
      | nil => simp at htrace
      | cons stmt stmts =>
        obtain ⟨rfl, hrest⟩ := List.cons.inj htrace
        obtain ⟨σ₁, hfirst, hexec⟩ := Option.bind_eq_some_iff.1 hexec
        obtain ⟨hR₁, hframe₁⟩ := step_stores hR hstep hfirst
        obtain ⟨hR', hframe⟩ := ih hR₁ hquiet.2 hrest hexec
        exact ⟨hR', fun a ha => (hframe a ha).trans (hframe₁ a ha)⟩

end Runs

end DataLayout

/-- **Memory as objects.**  In a run without a reload in which every instruction that writes memory
stands for a statement on the objects, and these statements are well-typed and fit, the objects
have at the end the values that the statements give them, no byte outside the objects has changed,
and every `LEN`, `SEL` and `MUX` that asks for an object gets the answer that the values give. -/
theorem data_objects_run {ρ : Type*} [DecidableEq ρ] (L : DataLayout ρ) (h : Host) (vm : VmState)
    (es : List Env) (σ σ' : ρ → DataValue) (stmts : List (DataStatement ρ))
    (hvm : L.values.Represents σ vm.mem)
    (hquiet : Along (step vmDecodeInstruction) NoReload (start h vm) es)
    (htrace : trace (step vmDecodeInstruction) L.statement (start h vm) es = stmts.map some)
    (hexec : L.execAll σ stmts = some σ') :
    L.values.Represents σ' (runProgram h vm es).vm.mem ∧
      (∀ a, (∀ r, ¬L.Mem r a) → (runProgram h vm es).vm.mem a = vm.mem a) ∧
      ∀ e, ∀ x ∈ L.query (runProgram h vm es) e, ∀ w ∈ DataLayout.answer σ' x.2,
        (step vmDecodeInstruction (runProgram h vm es) e).vm.reg x.1 = w := by
  obtain ⟨hR, hframe⟩ := DataLayout.run_stores (c := start h vm) hvm hquiet htrace hexec
  refine ⟨hR, hframe, ?_⟩
  intro e x hx w hw
  rw [DataLayout.query] at hx
  split at hx
  · rename_i pc instr raw hout
    obtain ⟨q, hq, rfl⟩ := Option.map_eq_some_iff.1 hx
    obtain ⟨op, hop⟩ := opEx_of_outcome hout
    have hoff : OffCall VmState.reg := fun _ _ _ _ _ _ => rfl
    rw [hoff.step_executed hout hop]
    exact DataLayout.reg_of_query e.host hR hq hop hw
  · cases hx

/-- A string of at most seven letters and an array of two words at the end of memory. -/
def textAndWords : DataLayout Bool where
  start r := if r then 0x3FFFFF8 else 0x3FFFFF0
  size _ := 8
  apart := by decide
  within := by decide
  objectAt a := if a = 0x3FFFFF8 then some true else if a = 0x3FFFFF0 then some false else none
  start_of_objectAt := by
    intro a r h
    split_ifs at h with h₁ h₂ <;> cases h <;> simp_all

/-- A machine with the program `DEMUX R1, R2, #1`, `LEFT R0, R3, #1` and `MUX R4, R2, #1`, the
addresses of the two objects in `R2` and `R3`, and the string `ab`. -/
def storeAndCut : VmState :=
  let vm := vmTablesInit vmCreate
  { vm with
    reg := Function.update (Function.update (Function.update vm.reg 1 7) 2 0x3FFFFF8) 3 0x3FFFFF0
    modules := [⟨[97], 0x3000, 12⟩]
    mem := overlay (overlay vm.mem 0x3FFFFF0 [97, 98]) 0x3000
      (uint32Bytes 0x7A020501 ++ uint32Bytes 0x52000701 ++ uint32Bytes 0x6E080501) }

/-- The array has got the 7, the string is `a`, and `MUX` reads the 7. -/
theorem data_objects_run_storeAndCut :
    let c := runProgram idleHost storeAndCut (List.replicate 6 idleEnv)
    let σ : Bool → DataValue := fun r => if r then .words [0, 7] else .text [97]
    textAndWords.values.Represents σ c.vm.mem ∧
      (step vmDecodeInstruction c idleEnv).vm.reg 4 = 7 := by
  have hvm : textAndWords.values.Represents
      (fun r => if r then .words [0, 0] else .text [97, 98]) storeAndCut.mem := by
    intro r
    cases r
    · exact ⟨by decide +kernel, by decide⟩
    · refine ⟨by decide, ?_⟩
      show ∀ k (hk : k < 2), _
      decide +kernel
  have hσ : Function.update (Function.update
      (fun r => if r then DataValue.words [0, 0] else .text [97, 98]) true (.words [0, 7]))
      false (.text [97]) = fun r => if r then .words [0, 7] else .text [97] := by
    funext r
    cases r <;> rfl
  have h := data_objects_run textAndWords idleHost storeAndCut (List.replicate 6 idleEnv) _
    (fun r => if r then .words [0, 7] else .text [97]) [.store true 1 7, .left false 1] hvm
    (by decide +kernel) (by decide +kernel) (by rw [← hσ]; rfl)
  exact ⟨h.1, h.2.2 idleEnv (4, .element true 1) (by decide +kernel) 7 rfl⟩

end Vm32
