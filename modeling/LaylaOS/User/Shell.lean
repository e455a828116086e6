/-
**The shell** (`user/shell_program.s`).

The labels and instructions of the commands `cd` and `nano` and of the routines that they and the
network commands use, in the order of the source. A command ends at `prompt_loop`, where the model ends
too: it stays there.
-/

import LaylaOS.Lib.Assembly

namespace LaylaOS.User

open LaylaOS.Lib.Assembly

/-- The texts that these commands print. -/
inductive Message
  | cdTo
  | cdFail
  | nanoHeader
  | nanoUsage
  | nanoHelp
  | nanoFail
  | nl
  | clearNano

def Message.text : Message → String
  | cdTo => "cd -> "
  | cdFail => "cd: not a directory\n"
  | nanoHeader => "-- nano -- "
  | nanoUsage => "usage: nano <path>\n"
  | nanoHelp => "Ctrl+S save | Ctrl+X exit\n\n"
  | nanoFail => "\n[nano write failed]\n"
  | nl => "\n"
  | clearNano => "".pushn '\n' 52

def Message.len (message : Message) : UInt32 := UInt32.ofNat message.text.length

/-- The addresses of the `.bss` section and of the texts. -/
structure Symbols where
  bss : UInt32
  data : Message → UInt32

namespace Symbols

variable (s : Symbols)

def lineBuf : UInt32 := s.bss + UInt32.ofNat 0
def argBuf : UInt32 := s.bss + UInt32.ofNat 256
def pathBuf1 : UInt32 := s.bss + UInt32.ofNat 512
def cwdBuf : UInt32 := s.bss + UInt32.ofNat 1024
def nanoBuf : UInt32 := s.bss + UInt32.ofNat 1280
def nanoLen : UInt32 := s.bss + UInt32.ofNat 3328
def keyBuf : UInt32 := s.bss + UInt32.ofNat 3332

end Symbols

inductive Label
  | promptLoop
  | doCd
  | doCdNormal
  | doCdRoot
  | doCdValidate
  | doCdDone
  | doCdFail
  | doNano
  | doNanoEmpty
  | doNanoPaint
  | doNanoEnterRaw
  | doNanoLoop
  | doNanoKeepChar
  | doNanoAppend
  | doNanoBackspace
  | doNanoSave
  | doNanoExit
  | doNanoUsage
  | doNanoFail
  | cstrlen
  | cstrlenLoop
  | cstrlenDone
  | copyCstr
  | copyCstrLoop
  | extractArg
  | extractArgSkip
  | extractArgStart
  | extractArgCopy
  | extractArgTrim
  | extractArgTrimLoop
  | extractArgDone
  | extractArgFail
  | makeAbsPath
  | makeAbsCopyCwd
  | makeAbsCwdDone
  | makeAbsAppendSrc
  | makeAbsAppendLoop
  | makeAbsCopySrc
  | makeAbsCopySrcLoop
  | makeAbsStrip
  | makeAbsFindEnd
  | makeAbsEndFound
  | makeAbsStripLoop
  | makeAbsDone
  | pathUpOne
  | pathUpFindEnd
  | pathUpEndFound
  | pathUpScan
  | pathUpRoot
  | pathUpCut
  | pathUpDone
  | parseUint16
  | parseUint16Loop
  | parseUint16Done
  | parseUint16Fail
  | parseIp
  | parseIpOctet
  | parseIpDelim
  | parseIpOk
  | parseIpFail
  deriving DecidableEq

/-- The blocks of the program. -/
def block (s : Symbols) : Label → List (Instr Label)
  | .promptLoop => []
  | .doCd =>
    [.movImm (s.lineBuf + 2) .esi, .movImm s.argBuf .edi, .call .extractArg, .jcc .b .doCdRoot,
      .movb (.abs s.argBuf) .eax, .cmpb 46 .eax, .jcc .ne .doCdNormal,
      .movb (.abs (s.argBuf + 1)) .eax, .cmpb 0 .eax, .jcc .e .doCdDone, .cmpb 46 .eax,
      .jcc .ne .doCdNormal, .movb (.abs (s.argBuf + 2)) .eax, .cmpb 0 .eax, .jcc .ne .doCdNormal,
      .movImm s.cwdBuf .esi, .movImm s.pathBuf1 .edi, .call .copyCstr, .movImm s.pathBuf1 .edi,
      .call .pathUpOne, .jmp .doCdValidate]
  | .doCdNormal =>
    [.movImm s.argBuf .esi, .movImm s.pathBuf1 .edi, .call .makeAbsPath, .jmp .doCdValidate]
  | .doCdRoot => [.storebImm 47 (.abs s.pathBuf1), .storebImm 0 (.abs (s.pathBuf1 + 1))]
  | .doCdValidate =>
    [.movImm 41 .eax, .movImm s.pathBuf1 .ebx, .int, .cmp 1 .eax, .jcc .ne .doCdFail,
      .movImm s.pathBuf1 .esi, .movImm s.cwdBuf .edi, .call .copyCstr]
  | .doCdDone =>
    [.movImm 4 .eax, .movImm 1 .ebx, .movImm (s.data .cdTo) .ecx, .movImm Message.cdTo.len .edx,
      .int, .movImm s.cwdBuf .ecx, .call .cstrlen, .movImm 4 .eax, .movImm 1 .ebx, .int,
      .movImm 4 .eax, .movImm 1 .ebx, .movImm (s.data .nl) .ecx, .movImm 1 .edx, .int,
      .jmp .promptLoop]
  | .doCdFail =>
    [.movImm 4 .eax, .movImm 1 .ebx, .movImm (s.data .cdFail) .ecx,
      .movImm Message.cdFail.len .edx, .int, .jmp .promptLoop]
  | .doNano =>
    [.movImm (s.lineBuf + 4) .esi, .movImm s.argBuf .edi, .call .extractArg,
      .jcc .b .doNanoUsage, .movImm s.argBuf .esi, .movImm s.pathBuf1 .edi, .call .makeAbsPath,
      .movImm 93 .eax, .movImm s.pathBuf1 .ebx, .movImm s.nanoBuf .ecx, .movImm 2047 .edx, .int,
      .test .eax, .jcc .l .doNanoEmpty, .store .eax (.abs s.nanoLen), .mov .eax .ecx,
      .storebImm 0 (.off s.nanoBuf .ecx), .jmp .doNanoPaint]
  | .doNanoEmpty => [.storeImm 0 (.abs s.nanoLen), .storebImm 0 (.abs s.nanoBuf)]
  | .doNanoPaint =>
    [.movImm 4 .eax, .movImm 1 .ebx, .movImm (s.data .clearNano) .ecx,
      .movImm Message.clearNano.len .edx, .int, .movImm 4 .eax, .movImm 1 .ebx,
      .movImm (s.data .nanoHeader) .ecx, .movImm Message.nanoHeader.len .edx, .int,
      .movImm s.pathBuf1 .ecx, .call .cstrlen, .movImm 4 .eax, .movImm 1 .ebx,
      .movImm s.pathBuf1 .ecx, .int, .movImm 4 .eax, .movImm 1 .ebx, .movImm (s.data .nl) .ecx,
      .movImm 1 .edx, .int, .movImm 4 .eax, .movImm 1 .ebx, .movImm (s.data .nanoHelp) .ecx,
      .movImm Message.nanoHelp.len .edx, .int, .load (.abs s.nanoLen) .edx, .test .edx,
      .jcc .e .doNanoEnterRaw, .movImm 4 .eax, .movImm 1 .ebx, .movImm s.nanoBuf .ecx, .int]
  | .doNanoEnterRaw => [.movImm 94 .eax, .movImm 1 .ebx, .int]
  | .doNanoLoop =>
    [.movImm 3 .eax, .movImm 0 .ebx, .movImm s.keyBuf .ecx, .movImm 1 .edx, .int, .cmp 1 .eax,
      .jcc .ne .doNanoLoop, .movzbl (.abs s.keyBuf) .eax, .cmpb 24 .eax, .jcc .e .doNanoExit,
      .cmpb 19 .eax, .jcc .e .doNanoSave, .cmpb 8 .eax, .jcc .e .doNanoBackspace, .cmpb 127 .eax,
      .jcc .e .doNanoBackspace, .cmpb 13 .eax, .jcc .ne .doNanoKeepChar,
      .storebImm 10 (.abs s.keyBuf)]
  | .doNanoKeepChar =>
    [.movzbl (.abs s.keyBuf) .eax, .cmpb 10 .eax, .jcc .e .doNanoAppend, .cmpb 9 .eax,
      .jcc .e .doNanoAppend, .cmpb 32 .eax, .jcc .b .doNanoLoop]
  | .doNanoAppend =>
    [.load (.abs s.nanoLen) .ecx, .cmp 2047 .ecx, .jcc .ae .doNanoLoop,
      .movb (.abs s.keyBuf) .eax, .storeb .eax (.off s.nanoBuf .ecx), .inc .ecx,
      .store .ecx (.abs s.nanoLen), .storebImm 0 (.off s.nanoBuf .ecx), .movImm 4 .eax,
      .movImm 1 .ebx, .movImm s.keyBuf .ecx, .movImm 1 .edx, .int, .jmp .doNanoLoop]
  | .doNanoBackspace =>
    [.load (.abs s.nanoLen) .ecx, .test .ecx, .jcc .e .doNanoLoop, .dec .ecx,
      .store .ecx (.abs s.nanoLen), .storebImm 0 (.off s.nanoBuf .ecx),
      .storebImm 8 (.abs s.keyBuf), .movImm 4 .eax, .movImm 1 .ebx, .movImm s.keyBuf .ecx,
      .movImm 1 .edx, .int, .jmp .doNanoLoop]
  | .doNanoSave =>
    [.load (.abs s.nanoLen) .edx, .movImm 92 .eax, .movImm s.pathBuf1 .ebx,
      .movImm s.nanoBuf .ecx, .int, .cmp 0 .eax, .jcc .ne .doNanoFail, .jmp .doNanoLoop]
  | .doNanoExit => [.movImm 94 .eax, .xor .ebx .ebx, .int, .jmp .promptLoop]
  | .doNanoUsage =>
    [.movImm 4 .eax, .movImm 1 .ebx, .movImm (s.data .nanoUsage) .ecx,
      .movImm Message.nanoUsage.len .edx, .int, .jmp .promptLoop]
  | .doNanoFail =>
    [.movImm 94 .eax, .xor .ebx .ebx, .int, .movImm 4 .eax, .movImm 1 .ebx,
      .movImm (s.data .nanoFail) .ecx, .movImm Message.nanoFail.len .edx, .int, .jmp .promptLoop]
  | .cstrlen => [.push .ecx, .xor .edx .edx]
  | .cstrlenLoop =>
    [.movb (.idx .ecx .edx) .eax, .cmpb 0 .eax, .jcc .e .cstrlenDone, .inc .edx,
      .jmp .cstrlenLoop]
  | .cstrlenDone => [.pop .ecx, .ret]
  | .copyCstr => []
  | .copyCstrLoop =>
    [.movb (.ind .esi) .eax, .storeb .eax (.ind .edi), .inc .esi, .inc .edi, .cmpb 0 .eax,
      .jcc .ne .copyCstrLoop, .ret]
  | .extractArg => []
  | .extractArgSkip =>
    [.movb (.ind .esi) .eax, .cmpb 32 .eax, .jcc .ne .extractArgStart, .inc .esi,
      .jmp .extractArgSkip]
  | .extractArgStart =>
    [.cmpb 10 .eax, .jcc .e .extractArgFail, .cmpb 0 .eax, .jcc .e .extractArgFail,
      .cmpb 13 .eax, .jcc .e .extractArgFail, .xor .ecx .ecx]
  | .extractArgCopy =>
    [.movb (.ind .esi) .eax, .cmpb 10 .eax, .jcc .e .extractArgTrim, .cmpb 0 .eax,
      .jcc .e .extractArgTrim, .cmpb 13 .eax, .jcc .e .extractArgTrim, .cmp 255 .ecx,
      .jcc .ae .extractArgTrim, .storeb .eax (.idx .edi .ecx), .inc .esi, .inc .ecx,
      .jmp .extractArgCopy]
  | .extractArgTrim => [.test .ecx, .jcc .e .extractArgFail, .mov .ecx .edx]
  | .extractArgTrimLoop =>
    [.test .edx, .jcc .e .extractArgFail, .movb (.before .edi .edx) .eax, .cmpb 32 .eax,
      .jcc .ne .extractArgDone, .dec .edx, .jmp .extractArgTrimLoop]
  | .extractArgDone => [.storebImm 0 (.idx .edi .edx), .clc, .ret]
  | .extractArgFail => [.stc, .ret]
  | .makeAbsPath => [.movb (.ind .esi) .eax, .cmpb 47 .eax, .jcc .e .makeAbsCopySrc, .xor .ecx .ecx]
  | .makeAbsCopyCwd =>
    [.movb (.off s.cwdBuf .ecx) .eax, .storeb .eax (.idx .edi .ecx), .cmpb 0 .eax,
      .jcc .e .makeAbsCwdDone, .inc .ecx, .cmp 255 .ecx, .jcc .b .makeAbsCopyCwd,
      .storebImm 0 (.off 255 .edi), .jmp .makeAbsStrip]
  | .makeAbsCwdDone =>
    [.cmp 1 .ecx, .jcc .be .makeAbsAppendSrc, .storebImm 47 (.idx .edi .ecx), .inc .ecx,
      .storebImm 0 (.idx .edi .ecx)]
  | .makeAbsAppendSrc => [.xor .edx .edx]
  | .makeAbsAppendLoop =>
    [.movb (.idx .esi .edx) .eax, .storeb .eax (.idx .edi .ecx), .cmpb 0 .eax,
      .jcc .e .makeAbsStrip, .inc .edx, .inc .ecx, .cmp 255 .ecx, .jcc .b .makeAbsAppendLoop,
      .storebImm 0 (.off 255 .edi), .jmp .makeAbsStrip]
  | .makeAbsCopySrc => [.xor .ecx .ecx]
  | .makeAbsCopySrcLoop =>
    [.movb (.idx .esi .ecx) .eax, .storeb .eax (.idx .edi .ecx), .cmpb 0 .eax,
      .jcc .e .makeAbsStrip, .inc .ecx, .cmp 255 .ecx, .jcc .b .makeAbsCopySrcLoop,
      .storebImm 0 (.off 255 .edi)]
  | .makeAbsStrip => [.xor .ecx .ecx]
  | .makeAbsFindEnd =>
    [.movb (.idx .edi .ecx) .eax, .cmpb 0 .eax, .jcc .e .makeAbsEndFound, .inc .ecx,
      .jmp .makeAbsFindEnd]
  | .makeAbsEndFound => [.cmp 1 .ecx, .jcc .be .makeAbsDone]
  | .makeAbsStripLoop =>
    [.movb (.before .edi .ecx) .eax, .cmpb 47 .eax, .jcc .ne .makeAbsDone,
      .storebImm 0 (.before .edi .ecx), .dec .ecx, .cmp 1 .ecx, .jcc .a .makeAbsStripLoop]
  | .makeAbsDone => [.ret]
  | .pathUpOne => [.xor .ecx .ecx]
  | .pathUpFindEnd =>
    [.movb (.idx .edi .ecx) .eax, .cmpb 0 .eax, .jcc .e .pathUpEndFound, .inc .ecx,
      .jmp .pathUpFindEnd]
  | .pathUpEndFound => [.cmp 1 .ecx, .jcc .be .pathUpDone, .dec .ecx]
  | .pathUpScan =>
    [.cmp 0 .ecx, .jcc .e .pathUpRoot, .movb (.idx .edi .ecx) .eax, .cmpb 47 .eax,
      .jcc .e .pathUpCut, .dec .ecx, .jmp .pathUpScan]
  | .pathUpRoot => [.storebImm 47 (.ind .edi), .storebImm 0 (.off 1 .edi), .jmp .pathUpDone]
  | .pathUpCut => [.cmp 0 .ecx, .jcc .e .pathUpRoot, .storebImm 0 (.idx .edi .ecx)]
  | .pathUpDone => [.ret]
  | .parseUint16 => [.xor .eax .eax, .xor .ecx .ecx]
  | .parseUint16Loop =>
    [.movzbl (.ind .esi) .edx, .cmpb 48 .edx, .jcc .b .parseUint16Done, .cmpb 57 .edx,
      .jcc .a .parseUint16Done, .imul 10 .eax .eax, .subImm 48 .edx, .add .edx .eax,
      .cmp 65535 .eax, .jcc .a .parseUint16Fail, .inc .esi, .inc .ecx, .jmp .parseUint16Loop]
  | .parseUint16Done => [.test .ecx, .jcc .e .parseUint16Fail, .clc, .ret]
  | .parseUint16Fail => [.stc, .ret]
  | .parseIp => [.push .ebx, .push .ecx, .push .edx, .xor .ebx .ebx, .movImm 4 .ecx]
  | .parseIpOctet =>
    [.push .ecx, .call .parseUint16, .pop .ecx, .jcc .b .parseIpFail, .cmp 255 .eax,
      .jcc .a .parseIpFail, .shl 8 .ebx, .or .eax .ebx, .dec .ecx, .jcc .e .parseIpDelim,
      .movb (.ind .esi) .edx, .cmpb 46 .edx, .jcc .ne .parseIpFail, .inc .esi,
      .jmp .parseIpOctet]
  | .parseIpDelim =>
    [.movb (.ind .esi) .edx, .cmpb 32 .edx, .jcc .e .parseIpOk, .cmpb 10 .edx,
      .jcc .e .parseIpOk, .cmpb 0 .edx, .jcc .e .parseIpOk, .cmpb 13 .edx, .jcc .e .parseIpOk,
      .jmp .parseIpFail]
  | .parseIpOk => [.mov .ebx .eax, .clc, .pop .edx, .pop .ecx, .pop .ebx, .ret]
  | .parseIpFail => [.stc, .pop .edx, .pop .ecx, .pop .ebx, .ret]

/-- The block behind a block that does not end in a jump or a return. -/
def behind : Label → Label
  | .doCdRoot => .doCdValidate
  | .doCdValidate => .doCdDone
  | .doNanoEmpty => .doNanoPaint
  | .doNanoPaint => .doNanoEnterRaw
  | .doNanoEnterRaw => .doNanoLoop
  | .doNanoLoop => .doNanoKeepChar
  | .doNanoKeepChar => .doNanoAppend
  | .cstrlen => .cstrlenLoop
  | .copyCstr => .copyCstrLoop
  | .extractArg => .extractArgSkip
  | .extractArgStart => .extractArgCopy
  | .extractArgTrim => .extractArgTrimLoop
  | .makeAbsPath => .makeAbsCopyCwd
  | .makeAbsCwdDone => .makeAbsAppendSrc
  | .makeAbsAppendSrc => .makeAbsAppendLoop
  | .makeAbsCopySrc => .makeAbsCopySrcLoop
  | .makeAbsCopySrcLoop => .makeAbsStrip
  | .makeAbsStrip => .makeAbsFindEnd
  | .makeAbsEndFound => .makeAbsStripLoop
  | .makeAbsStripLoop => .makeAbsDone
  | .pathUpOne => .pathUpFindEnd
  | .pathUpEndFound => .pathUpScan
  | .pathUpCut => .pathUpDone
  | .parseUint16 => .parseUint16Loop
  | .parseIp => .parseIpOctet
  | l => l

def shell (s : Symbols) : Program Label := ⟨block s, behind⟩

end LaylaOS.User
