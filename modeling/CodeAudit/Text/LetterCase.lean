import CodeAudit.Text.Basic

/-! Lower and upper case of all scripts. A row `(first, last, step, shift)` moves every `step`-th
code point from `first` to `last` by `shift`; packed are its distance from the row before it, its
length and step in one number, and its shift with the sign in the lowest bit. The rows are the
simple case mappings of the Unicode character database, version 14: code points in order, those in
one row that are one or two apart and move by the same shift. The expansions are the unconditional
ones of its special casings. -/

namespace CodeAudit

abbrev ShiftRow := Nat × Nat × Nat × Int

def shiftRows (place : Nat) : List Nat → List ShiftRow
  | gap :: size :: move :: rest =>
    let first := place + gap
    let last := first + size / 2
    (first, last, size % 2 + 1, if move % 2 = 0 then move / 2 else .negSucc (move / 2)) :: shiftRows last rest
  | _ => []

def lowerShifts : List ShiftRow := shiftRows 0 <| packedGaps 0 <| packedDigits "#Ciz42Cz4YzX24923T23zT220$1192
40(015220&q10222&o10230!c10&i10&k10220&o10&s20(210&w10240(210(620(819220(G10220(G30220(G10222(E15220(I10240280
41022041022041X23X230415220#D10zp1zH220$J2X280<*o10220%P10<*i30220&T10!I10!M1H2$o5240290#q70zG24zE20!822!62Wz4
2Gz4a0G9j260zx30220D10234$J1U!e1z2z4nz52Azj220U1P23#923zEzaz|AzE*?820*?860*?8.3!c!z]S1AGz,hzO$yF34$yF%L$v2A0+#
n2#92AEF9AFBEF9EF9AFCDF9EFPEF9EF9EF92F12!R10HC6!p10HC2F12#JD2F12#h10DC2$F12$B10H$w0+yX40,$P10,yN70ukUWK02;doqz
%fzYzan0220<)510%!710<(X39220<*J10<)H10<*P10<*N20230292<+T1#H2952502]?YzT2Kr2!GP24!12B5220z_!h1H250220!&*J3524
b220!&+F10!&+b10!&+T10!&+910!&+F20!&)Z10!&*N10!&)f10z%u1T220zZ10!&+D10z_$R152702652T02<^uoz4]MzIzK!HzAzK!bKzI2
SzI2CzI22zIz$Vze!8!ysz2z4<<nz2z4]|Dz6z8"

def upperShifts : List ShiftRow := shiftRows 0 (packedGaps 0 (packedDigits "#10~k!40(hzI0*xzA01301301d01%d
0!m!50z1E0!310zr40zX10zlQ0!p10!d40#B$$h0))R10))P10))712))310))510)(p10)&110z_yW)p0zv$p0*=9")) ++
  lowerShifts.map fun (first, last, step, shift) => ((first + shift).toNat, (last + shift).toNat, step, -shift)

def expansions (place : Nat) : List Nat → List (Nat × List Nat)
  | gap :: count :: rest => (place + gap, rest.take count) :: expansions (place + gap) (rest.drop count)
  | _ => []
termination_by codes => codes.length
decreasing_by simp; omega

def upperExpansions : List (Nat × List Nat) := expansions 0 (packedGaps 0 (packedDigits "#h2zNzNzk2,ezI!l2z
E;0&u3=L.u.nW3=X.u.n(p2_D_g$&t2zC;b12zO.u12zR.w12zT.w12z5,g#22=X;723=X;7.m23=X;7.n23=X;7;szW2%+M=L12=D=L12=2=L
22=D;s13=D;s=L52=D=L62%+c=L12=J=L12=5=L22=J;s13=J;s=L52=J=L63=L.u.m13=L.u.n32=L;s13=L.u;sB3=X.u.m13=X.u.n12=T;
722=X;s13=X.u;sB2%,Q=L12=b=L12=B=L22=b;s13=b;s=L52=b=Lz.*S2zAzA12zAzD12zAzG13zAzAzD13zAzAzG12zNzO12zNzOD2_S_U1
2_S_D12_S_J12_c_U12_S_L")) ++
  [(8064, 7944), (8072, 7944), (8080, 7976), (8088, 7976), (8096, 8040), (8104, 8040)].flatMap fun (small, capital) =>
    (List.range 8).map fun i => (small + i, [capital + i, 921])

def shiftBy (rows : List ShiftRow) (c : Char) : Char :=
  let n := c.toNat
  match rows.find? fun (first, last, step, _) => first ≤ n && n ≤ last && (n - first) % step == 0 with
  | some (_, _, _, shift) => Char.ofNat (Int.ofNat n + shift).toNat
  | none => c

def lowerChar (c : Char) : Chars :=
  if c.toNat < 192 then [c.toLower]
  else if c.toNat = 304 then ['i', Char.ofNat 775]
  else [shiftBy lowerShifts c]

def upperChar (c : Char) : Chars :=
  if c.toNat < 128 then [c.toUpper]
  else match upperExpansions.lookup c.toNat with
    | some codes => codes.map Char.ofNat
    | none => [shiftBy upperShifts c]

/-! Characters of identifiers, and letters, digits and other numerals of all scripts. Of the last
two sets only what tells them from the first is written down. -/

def identifierStartTable : RangeTable := .ofPacked "!o1A1415N1V1(c4CE57111!951233116113111K1zN1!J8!k1c216fzBR4
4jhZ21zd11F272A321G11UTzTB1OX92415M419131MQ6f16Hgws31I17AFG3s31G19AE2A17sODJ3Fs31GKG8As31QAF1HtK3qr31PBU14r31P
BE3Ht21G11783O64z7lx11D7lx11AAJdz3jR5zdxK1G6443132734DC1HzV1+7YJAze3+K2H1Q2zI3a4S5R2T8xZ141z1!N1zvn!2sN9rzM1zX
lH8sUD2AiQac6Aa2z4f416123#Iz4(P113B3C4D3Dzu1D1FEzf1412A11266111111G245541Hfz[d#n6432CzqGzZ*A3P975253zR631zU1!R
HWaS)W$*qz4<[Hwt2$T3GAz9GV2zKd92zh2zx13141NNwEoz263112BSANPT7lR2G51AAlEC18KN313o113225211S2B732ze1E2zxN(.k%=q*
21A1!GH!Z6#cI!08gzx111311111111!6aQ6QBu2z1Z$Bz9r!H#Vha4zM5Z2m1#PC#6C.MAN9VSxAMAQ6!062z41FcZa3T3e1SMxAMAJDIU%ND
a%lh4zpAVKe8x7hCrv221DjURQaT12i31CmE4L111OtJzk1rbs31G37AJ#CI4KzLK211I#Xf4PxK1hxD1dxb#uG!iLxF111OzxG1111SAe71D9
BkJ15&aH1nUd!2L1JmE1H%T6#4zJ@t6z~02@4A*&2HzJBa8wG4U;IR!u51z6zJ11E;!4#_Z<01P1V1P1V1P1V1P1V1P18.K_Ox$IA7C51%o3xK
~bIzn71>o&M!|ez@>jV#(J"

def identifierPartChanges : RangeTable := .ofPacked "#31*izqN1$B5$Pj11121211zCBmV61zf72622142AN1URzVBFAX991O41
91315h3sEgO1Xs31I17A22AH3s31G19AEE6sODJ311Ds31GKEAAs31QAE8BtK3VBAr31PBEH3s31PBE3Ht21G91AEG4z7jz1118C81AzR11AAJ
z226AB1111142jO125m91zeK1AC443132734DC1F,f599=S4S3T2T8xW9DX31B!N1zvTAA!2Ix5vz9KG1zAlH8DH9B4UD2AiEmK8A6AzoB1L41
6123#Iz4*Z2J1zmS413C!zA3!7FzZX*E6zh4]zPAz914AW2zK2$W13141N541zFAoIAYDBS8PDf7lEFAB1AAlEC18EX3o113225211f552#u81
E;.e1.HGAM32O3#CAb1zY2+51#VG!T5$pC_lFcA!j2*XM&83!XBn4zrCrFVB221DjB71cQaP52i13CmE841CzMC61!ebs31G37AJ#CI9A41zLK
4I#XIRPxH4LzLD2cxV$2F!jAzAF11123JzxG31SAe714819BkG&jH6Ksd!2L1JmE1H%T4.^iBzPBa7x7FK>n51z6zLE;!725#$V*25368827U4
!S3|Zq)Wt4o81E17a_Ox$IA7C%u3xE~s7zn71E##fl^y#c$0"

def alphanumericChanges : RangeTable := .ofPacked "!w25123,d1.LA!EA#IA&qAzuC46zfHzuCzuC26zaRzrC87zfCzi75LzhGz7
1SAzT1QCzAK$SAzAA,xK@fSMAzl2#BA!2H!jQ!xDzQA!EA6A?Q1186A!M1L1XGf1,jzLzIM+UU|51%51<Q4!HBU81FWAdF[?GA)Z9!YAcA#IAM
AzOC&iC;@06&k2zq5111311111111!PA!C2%tnz54H2%fRa4&IC=g8P7VSxAM6!a62z4z49q2UFx9zgAJDTJ%NDe%h!cAg4zq7!AY!1HxB!OA6
L$6F%gAzoI&3LzatxG(0JzOJ.Sd#dMxH)da.@2BzPB!4S;IN?!OnzdY@Rqz<QC(2A~hB!4E6<4131!51F=qNz]ol"

variable (c : Char)

def isIdentifierStart : Bool := if c.toNat < 128 then c == '_' || c.isAlpha else identifierStartTable.contains c

def isIdentifierPart : Bool :=
  if c.toNat < 128 then c == '_' || c.isAlphanum
  else identifierStartTable.contains c != identifierPartChanges.contains c

def isAlphanumeric : Bool :=
  if c.toNat < 128 then c.isAlphanum else identifierStartTable.contains c != alphanumericChanges.contains c

def isWordChar : Bool := c == '_' || isAlphanumeric c

/-! A capital sigma that ends a word has a small letter of its own. Before and after it marks that
belong to a letter are passed over. -/

def isCased : Bool := lowerChar c != [c] || upperChar c != [c]

def isSkipped : Bool := "'.:^`¨\u00ad¯´·¸‘’".toList.contains c || (isIdentifierPart c && !isWordChar c)

def meetsCased (s : Chars) : Bool := (s.dropWhile isSkipped).head?.any isCased

def endsWord (before after : Chars) : Bool := meetsCased before && !meetsCased after

def lowerSigma (before after : Chars) : Char := if endsWord before after then 'ς' else 'σ'

def lowerChars (before : Chars) : Chars → Chars
  | [] => []
  | c :: rest => (if c = 'Σ' then [lowerSigma before rest] else lowerChar c) ++ lowerChars (c :: before) rest

def lowerText (s : String) : String := String.ofList (lowerChars [] s.toList)

def upperText (s : String) : String := String.ofList (s.toList.flatMap upperChar)

end CodeAudit
