import G20OsLab.Sim.Conservation
import G20OsLab.Sim.EdfOptimal
import G20OsLab.Sim.MlfqWait
import G20OsLab.Sim.CustomWait
import G20OsLab.Sim.CutOff
import G20OsLab.Sim.EdfDeadlines
import G20OsLab.Sim.IdleCpus
import G20OsLab.Sim.IoBursts
import G20OsLab.Sim.LotteryOverflow
import G20OsLab.Sim.ParseRender
import G20OsLab.Sim.ParserGrammar
import G20OsLab.Kernel.InitReaps
import G20OsLab.Kernel.Sigreturn
import G20OsLab.Kernel.Signals
import G20OsLab.Kernel.SemaphoreWrap
import G20OsLab.Kernel.AlarmTicks
import G20OsLab.Kernel.MailBytes
import G20OsLab.Kernel.NoLostWakeup
import G20OsLab.Kernel.CoarseRuns
import G20OsLab.Kernel.Kill
import G20OsLab.Kernel.LockOrder
import G20OsLab.Sim.MlfqOrder
import G20OsLab.Sim.CustomBalance
import G20OsLab.Sim.CustomPick
import G20OsLab.Kernel.LogBuffers
import G20OsLab.Kernel.VmRuns
