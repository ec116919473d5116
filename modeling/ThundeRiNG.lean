import ThundeRiNG.Automation.GenLink
import ThundeRiNG.Automation.Inputs
import ThundeRiNG.Automation.MemRegistry
import ThundeRiNG.Automation.Placeholders
import ThundeRiNG.Automation.Pragmas
import ThundeRiNG.Gpu.SobolVectors
import ThundeRiNG.Host.Hwd
import ThundeRiNG.Host.Jumpxor32
import ThundeRiNG.Host.Jumpxorwow
import ThundeRiNG.Host.LcgJumpAhead
import ThundeRiNG.Host.LutSrWords
import ThundeRiNG.Host.Ompcg
import ThundeRiNG.Host.Philox
import ThundeRiNG.Host.PrintConnections
import ThundeRiNG.Host.RoundRobinWords
import ThundeRiNG.Host.Seeds
import ThundeRiNG.Misc.DataFlow
import ThundeRiNG.Misc.EstpiFair
import ThundeRiNG.Rng.Device
import ThundeRiNG.Rng.RsguFair
import ThundeRiNG.Rng.SouTokens
import ThundeRiNG.Rng.SoumFair
